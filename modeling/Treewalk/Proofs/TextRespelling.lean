import Treewalk.Proofs.ProgramTexts

/-!
# Texts with a new name in the place of identifiers

In a text without faults, chosen identifiers are written with another name.
The text is cut at the same places afterwards, so its tokens are those it had,
on the lines they were on, with the new lexeme where it was chosen.
-/

namespace Treewalk

open List

/-- A name that a program can use for a variable. -/
def isIdentifier (name : String) : Bool :=
  match name.toList with
  | [] => false
  | first :: rest =>
    Scan.startsName first && rest.all Scan.continuesName && (Keyword.ofSpelling? name).isNone

namespace Scan

/-- Write chosen tokens, counted from some number on, with another name. -/
def respell (chosen : Nat → Bool) (name : String) : Nat → List Part → List Part
  | _, [] => []
  | index, part :: parts =>
    match part.meaning with
    | .token kind =>
      ⟨.token kind, if chosen index then name.toList else part.taken⟩ ::
        respell chosen name (index + 1) parts
    | _ => part :: respell chosen name index parts

/-- Only identifiers are chosen. -/
def ChoosesNames (chosen : Nat → Bool) : Nat → List Part → Prop
  | _, [] => True
  | index, part :: parts =>
    match part.meaning with
    | .token kind =>
      (chosen index = true → kind = .identifier) ∧ ChoosesNames chosen (index + 1) parts
    | _ => ChoosesNames chosen index parts

section

variable {chosen : Nat → Bool} {name : String} {text : List Char} {parts : List Part} {index : Nat}

theorem choosesNames_of_tokens (line : Nat)
    (names : ∀ (position : Nat) (token : Token), (tokens line parts)[position]? = some token →
      chosen (index + position) = true → token.kind = .identifier) :
    ChoosesNames chosen index parts := by
  induction parts generalizing line index with
  | nil => trivial
  | cons part parts ih =>
    rcases part with ⟨meaning, taken⟩
    cases meaning with
    | token kind =>
      have others : ∀ (position : Nat) (token : Token),
          (tokens (line + newlines taken) parts)[position]? = some token →
          chosen (index + 1 + position) = true → token.kind = .identifier := by
        intro position token found later
        rw [Nat.add_right_comm] at later
        exact names (position + 1) token found later
      exact ⟨fun here => names 0 _ rfl here, ih _ others⟩
    | blank | fault fault => exact ih _ names

theorem isIdentifier_parts (identifier : isIdentifier name = true) :
    ∃ first more, name.toList = first :: more ∧ startsName first = true ∧
      (∀ char ∈ more, continuesName char = true) ∧ Keyword.ofSpelling? name = none := by
  unfold isIdentifier at identifier
  split at identifier
  · cases identifier
  · next first rest chars =>
    simp only [Bool.and_eq_true, all_eq_true, Option.isNone_iff_eq_none] at identifier
    exact ⟨first, rest, chars, identifier.1.1, identifier.1.2, identifier.2⟩

section

variable {first : Char} {more : List Char} (starts : startsName first = true)
  (continues : ∀ char ∈ more, continuesName char = true)

include starts continues

theorem newlines_of_name : newlines (first :: more) = 0 := by
  rw [newlines, count_eq_zero]
  intro mem
  rcases mem_cons.mp mem with rfl | mem
  · cases starts
  · cases continues _ mem

theorem piece_of_name {after : List Char}
    (unreserved : Keyword.ofSpelling? (String.ofList (first :: more)) = none)
    (stops : Stops continuesName after) :
    piece first (more ++ after) = ⟨.token .identifier, first :: more, after⟩ := by
  rw [piece_of_startsName starts, namePiece, takeWhile_run continues stops,
    dropWhile_run continues stops, unreserved]

end

variable (identifier : isIdentifier name = true)

include identifier

/-- The new text starts like the old one. -/
theorem Cut.startsAlike_respell (cut : Cut text parts) (names : ChoosesNames chosen index parts) :
    StartsAlike text (written (respell chosen name index parts)) := by
  rcases isIdentifier_parts identifier with ⟨lead, others, chars, starts, _, _⟩
  cases cut with
  | nil => exact .nil
  | @cons first rest meaning taken after parts front others =>
    rcases piece_reads first rest with ⟨more, takes, _, _⟩
    simp only [front] at takes
    cases meaning with
    | token kind =>
      rw [respell, written, flatMap_cons]
      simp only
      split
      · next here =>
        cases names.1 here
        have starts' : startsName first = true :=
          startsName_of_identifier (by rw [front])
        rw [chars]
        exact .name _ _ starts' starts
      · rw [takes]
        exact .same first _ _
    | blank | fault fault =>
      rw [respell, written, flatMap_cons, takes]
      exact .same first _ _

theorem Cut.boundary_respell (cut : Cut text parts) (names : ChoosesNames chosen index parts) :
    Boundary text (written (respell chosen name index parts)) := by
  refine ⟨cut.startsAlike_respell identifier names, ?_⟩
  rintro after after' rfl same
  -- A point is a part of its own, so the text after it is cut as well.
  cases cut with
  | cons front others =>
    cases front
    rw [respell, written, flatMap_cons] at same
    simp only at same
    split at same
    · next here => cases names.1 here
    · cases same
      exact others.startsAlike_respell identifier names.2

/-- The new text is cut where the old one was. -/
theorem Cut.respelled (cut : Cut text parts) (sound : Sound parts)
    (names : ChoosesNames chosen index parts) :
    Cut (written (respell chosen name index parts)) (respell chosen name index parts) := by
  induction cut generalizing index with
  | nil => exact .nil
  | @cons first rest meaning taken after parts front others ih =>
    unfold Sound at sound
    rw [forall_mem_cons] at sound
    cases meaning with
    | token kind =>
      have boundary := others.boundary_respell identifier names.2
      have tail := ih sound.2 names.2
      rw [respell, written, flatMap_cons]
      simp only
      split
      · next here =>
        cases names.1 here
        rcases isIdentifier_parts identifier with ⟨lead, more, chars, starts, continues, unreserved⟩
        have stops : Stops continuesName after := by
          have starts' : startsName first = true :=
            startsName_of_identifier (by rw [front])
          rw [piece_of_startsName starts'] at front
          have remaining : rest.dropWhile continuesName = after :=
            congrArg Piece.rest front
          rw [← remaining]
          exact stops_dropWhile continuesName rest
        have stops' := boundary.starts.stops rfl (by
          intro char _ begins _ absent
          rw [startsName_continues begins] at absent
          cases absent) stops
        rw [chars]
        refine .cons (piece_of_name starts continues ?_ stops') tail
        rw [← chars, String.ofList_toList]
        exact unreserved
      · exact .replace front sound.1 boundary tail
    | blank =>
      exact .replace front sound.1 (others.boundary_respell identifier names) (ih sound.2 names)
    | fault fault => exact absurd rfl (sound.1 fault)

/-- A new name takes no more lines than the old one. -/
theorem Cut.newlines_chosen {first : Char} {rest taken after : List Char} {kind : TokenKind}
    (front : piece first rest = ⟨.token kind, taken, after⟩) (others : Cut after parts)
    (named : chosen index = true → kind = .identifier) :
    newlines (if chosen index then name.toList else taken) = newlines taken := by
  split
  · next here =>
    cases named here
    rcases isIdentifier_parts identifier with ⟨lead, more, chars, starts, continues, _⟩
    rcases (Cut.cons front others).named _ mem_cons_self rfl with
      ⟨lead', more', takes, starts', continues'⟩
    simp only at takes
    rw [chars, takes, newlines_of_name starts continues, newlines_of_name starts' continues']
  · rfl

theorem Cut.tokens_respell (cut : Cut text parts)
    (names : ChoosesNames chosen index parts) (line : Nat) :
    tokens line (respell chosen name index parts) = (tokens line parts).mapIdx fun position token =>
        if chosen (index + position) then { token with lexeme := name }
        else token := by
  induction cut generalizing index line with
  | nil => rfl
  | @cons first rest meaning taken after parts front others ih =>
    cases meaning with
    | token kind =>
      have lines := Cut.newlines_chosen identifier front others names.1
      simp only [respell, tokens, lines, mapIdx_cons, ih names.2, Nat.add_zero]
      congr 1
      · split
        · rw [String.ofList_toList]
        · rfl
      · simp only [Nat.add_right_comm, Nat.add_assoc]
    | blank | fault fault => exact ih names _

theorem Cut.newlines_respell (cut : Cut text parts) (names : ChoosesNames chosen index parts) :
    newlines (written (respell chosen name index parts)) = newlines (written parts) := by
  induction cut generalizing index with
  | nil => rfl
  | @cons first rest meaning taken after parts front others ih =>
    cases meaning with
    | token kind =>
      have lines := Cut.newlines_chosen identifier front others names.1
      have tail := ih names.2
      simp only [written, respell, flatMap_cons, newlines_append] at tail ⊢
      rw [lines, tail]
    | blank | fault fault =>
      have tail := ih names
      simp only [written, respell, flatMap_cons, newlines_append] at tail ⊢
      rw [tail]

omit identifier in
theorem Sound.respell (sound : Sound parts) : Sound (respell chosen name index parts) := by
  induction parts generalizing index with
  | nil => exact sound
  | cons part parts ih =>
    rcases part with ⟨meaning, taken⟩
    unfold Sound at sound ⊢
    rw [forall_mem_cons] at sound
    cases meaning with
    | token kind =>
      rw [Scan.respell, forall_mem_cons]
      exact ⟨nofun, ih sound.2⟩
    | blank =>
      rw [Scan.respell, forall_mem_cons]
      exact ⟨sound.1, ih sound.2⟩
    | fault fault => exact absurd rfl (sound.1 fault)

end

theorem Cut.scan_respell {chosen : Nat → Bool} {name text : String}
    {parts : List Part} (identifier : isIdentifier name = true)
    (cut : Cut text.toList parts) (sound : Sound parts)
    (names : ∀ (position : Nat) (token : Token), (tokens 1 parts)[position]? = some token →
      chosen position = true → token.kind = .identifier)
    (ending : chosen (tokens 1 parts).length = false) :
    let after := String.ofList (written (respell chosen name 0 parts))
    scan after = ⟨(scan text).tokens.mapIdx fun position token =>
          if chosen position then { token with lexeme := name } else token,
          []⟩ ∧
      (TokenStream.ofList (scan after).tokens).tokens =
        (tokens 1 parts).mapIdx fun position token =>
          if chosen position then { token with lexeme := name }
          else token := by
  intro after
  have named : ChoosesNames chosen 0 parts := by
    refine choosesNames_of_tokens 1 fun position token found here => ?_
    rw [Nat.zero_add] at here
    exact names position token found here
  have chars : after.toList = written (respell chosen name 0 parts) := String.toList_ofList
  have cut' : Cut after.toList (respell chosen name 0 parts) := by
    rw [chars]
    exact cut.respelled identifier sound named
  have tokens' := cut.tokens_respell identifier named 1
  simp only [Nat.zero_add] at tokens'
  constructor
  · rw [cut'.scan_eq sound.respell, cut.scan_eq sound, chars,
      cut.newlines_respell identifier named, cut.written_eq, tokens', mapIdx_append]
    simp [ending]
  · rw [cut'.stream_eq sound.respell, tokens']

end Scan

end Treewalk
