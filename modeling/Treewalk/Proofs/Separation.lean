import Treewalk.Proofs.LongestMatch

/-!
# Lexemes with separators between them

A filler is a text that stands for nothing: blank space and comments that are
ended.  A separator is a filler that starts with blank space.  Nothing that is
read goes on in blank space but strings and comments, and these end by
themselves; so a separator also ends the lexeme in front of it.
-/

namespace Treewalk

open List

/-- What a token is and how it is spelled, wherever it stands. -/
def Token.withoutLine (token : Token) : TokenKind × String :=
  (token.kind, token.lexeme)

namespace Scan

/-! ## Fillers -/

/-- Blank space and comments that are ended. -/
inductive Filler : List Char → Prop where
  | nothing : Filler []
  | blank {character rest}
      (blank : character ∈ blanks) (others : Filler rest) :
      Filler (character :: rest)
  /-- A comment up to the end of its line, which is there. -/
  | lineComment {comment rest} (inside : '\n' ∉ comment) (others : Filler rest) :
      Filler ('/' :: '/' :: (comment ++ '\n' :: rest))
  /-- A comment up to the first `*/` behind its start. -/
  | blockComment {comment rest}
      (first : ¬ closing <:+: comment ++ ['*']) (others : Filler rest) :
      Filler ('/' :: '*' :: (comment ++ closing ++ rest))

/-- A filler that starts with blank space. -/
def Separator (text : List Char) : Prop :=
  ∃ character rest, text = character :: rest ∧ character ∈ blanks ∧ Filler rest

theorem Separator.filler {text : List Char} (separator : Separator text) : Filler text := by
  rcases separator with ⟨char, rest, rfl, blank, filler⟩
  exact .blank blank filler

theorem Separator.apart {text : List Char} (separator : Separator text)
    (rest : List Char) : Apart (text ++ rest) := by
  rcases separator with ⟨char, others, rfl, blank, _⟩
  intro first head
  cases head
  exact blank

variable {parts : List Part}

theorem Front.cons {meaning : Meaning} {taken rest : List Char} (front : Front meaning taken rest)
    (cut : Cut rest parts) : Cut (taken ++ rest) (⟨meaning, taken⟩ :: parts) := by
  rcases front.piece_eq with ⟨first, more, whole, read⟩
  rw [whole]
  exact .cons read cut

/-- The parts stand for nothing. -/
def Skipped (parts : List Part) : Prop :=
  ∀ part ∈ parts, part.meaning = .blank

section

variable {parts : List Part} (skipped : Skipped parts)

include skipped

theorem Skipped.cons (taken : List Char) : Skipped (⟨.blank, taken⟩ :: parts) :=
  forall_mem_cons.mpr ⟨rfl, skipped⟩

theorem Skipped.sound : Sound parts := by
  intro part mem fault means
  rw [skipped part mem] at means
  cases means

theorem Skipped.tokens_eq (line : Nat) : tokens line parts = [] := by
  induction parts generalizing line with
  | nil => rfl
  | cons part parts ih =>
    rcases part with ⟨meaning, taken⟩
    rcases forall_mem_cons.mp skipped with ⟨blank, others⟩
    cases blank
    exact ih others _

end

/-- A filler is cut into parts that are skipped. -/
theorem Filler.cut {filler rest : List Char} (fills : Filler filler) (cut : Cut rest parts) :
    ∃ skipped, Skipped skipped ∧ Cut (filler ++ rest) (skipped ++ parts) := by
  induction fills with
  | nothing => exact ⟨[], nofun, cut⟩
  | blank blank _ ih =>
    rcases ih with ⟨skipped, blanks, others⟩
    exact ⟨_, blanks.cons _, (Front.blank blank _).cons others⟩
  | @lineComment comment more inside _ ih =>
    rcases ih with ⟨skipped, blanks, others⟩
    have line := (Front.blank (by decide : '\n' ∈ Scan.blanks) _).cons others
    have ends : ∀ next ∈ (['\n'] ++ (more ++ rest)).head?, next = '\n' := by
      rintro next ⟨⟩
      rfl
    have whole := (Front.lineComment inside ends).cons line
    refine ⟨_, (blanks.cons ['\n']).cons ('/' :: '/' :: comment), ?_⟩
    simpa only [cons_append, nil_append, append_assoc] using whole
  | @blockComment comment more first _ ih =>
    rcases ih with ⟨skipped, blanks, others⟩
    have whole := (Front.blockComment first _).cons others
    refine ⟨_, blanks.cons ('/' :: '*' :: (comment ++ closing)), ?_⟩
    simpa only [cons_append, append_assoc] using whole

/-! ## Lexemes -/

/-- A lexeme that is set apart is the next part. -/
theorem Lexeme.cons {kind : TokenKind} {taken rest : List Char} (lexeme : Lexeme kind taken)
    (apart : Apart rest) (cut : Cut rest parts) :
    Cut (taken ++ rest) (⟨.token kind, taken⟩ :: parts) := by
  rcases lexeme.before apart with ⟨first, more, rfl, _, read⟩
  exact .cons read cut

theorem Lexeme.cut {kind : TokenKind} {taken : List Char}
    (lexeme : Lexeme kind taken) : Cut taken [⟨.token kind, taken⟩] := by
  have nothing : Apart [] := nofun
  have cut := lexeme.cons nothing .nil
  rwa [append_nil] at cut

theorem Sound.nil : Sound [] :=
  nofun

theorem Sound.token (sound : Sound parts) (kind : TokenKind) (taken : List Char) :
    Sound (⟨.token kind, taken⟩ :: parts) :=
  forall_mem_cons.mpr ⟨nofun, sound⟩

end Scan

open Scan

/-- The text by itself is read as one token that is all of it. -/
def ReadAlone (kind : TokenKind) (text : String) : Prop :=
  ∃ line last, scan text = ⟨[⟨kind, text, line⟩, endToken last], []⟩

variable {text : String} {lexemes : List (TokenKind × String)}

/-- Texts that are read alone are lexemes, and lexemes are. -/
theorem readAlone_iff {kind : TokenKind} : ReadAlone kind text ↔ Lexeme kind text.toList := by
  constructor
  · rintro ⟨line, last, read⟩
    have cut := cut_cutAll (Nat.le_refl text.toList.length)
    have sound := cut.sound_iff.mp (congrArg Scanned.errors read)
    rw [cut.scan_eq sound, Scanned.mk.injEq] at read
    have split : tokens 1 (cutAll text.toList.length text.toList) ++ _ =
        [⟨kind, text, line⟩] ++ [endToken last] := read.1
    have only := append_inj_left' split rfl
    exact cut.lexeme (only ▸ mem_singleton_self _)
  · intro lexeme
    have sound : Sound [⟨.token kind, text.toList⟩] :=
      Sound.nil.token kind text.toList
    have read := lexeme.cut.scan_eq sound
    rw [tokens, String.ofList_toList] at read
    exact ⟨_, _, read⟩

/-- Lexemes one after the other, with a separator between any two. -/
inductive Interleaved : List (TokenKind × String) → String → Prop where
  | none : Interleaved [] ""
  | last {kind lexeme}
      (alone : ReadAlone kind lexeme) : Interleaved [(kind, lexeme)] lexeme
  | more {kind lexeme separator text next others}
      (alone : ReadAlone kind lexeme) (separates : Separator separator.toList)
      (further : Interleaved (next :: others) text) :
      Interleaved ((kind, lexeme) :: next :: others)
        (lexeme ++ separator ++ text)

/-- The lexemes are the tokens among the parts of the text. -/
theorem Interleaved.cut (interleaved : Interleaved lexemes text) :
    ∃ parts, Cut text.toList parts ∧ Sound parts ∧
      ∀ line, (tokens line parts).map Token.withoutLine = lexemes := by
  induction interleaved with
  | none => exact ⟨[], .nil, .nil, fun _ => rfl⟩
  | @last kind lexeme alone =>
    refine ⟨_, (readAlone_iff.mp alone).cut, Sound.nil.token _ _, ?_⟩
    intro line
    rw [tokens, String.ofList_toList]
    rfl
  | @more kind lexeme separator text next others alone separates _
    ih =>
    rcases ih with ⟨parts, cut, sound, same⟩
    rcases separates.filler.cut cut with ⟨skipped, blank, filled⟩
    have whole := (readAlone_iff.mp alone).cons (separates.apart _) filled
    have chars : (lexeme ++ separator ++ text).toList =
        lexeme.toList ++ (separator.toList ++ text.toList) := by
      rw [String.toList_append, String.toList_append, append_assoc]
    refine ⟨_, chars ▸ whole, Sound.token ?_ _ _, fun line => ?_⟩
    · intro part mem
      exact (mem_append.mp mem).elim (blank.sound part) (sound part)
    · rw [tokens, tokens_append, blank.tokens_eq, nil_append,
        String.ofList_toList, map_cons, same]
      rfl

/-- Lexemes that are set apart are read one by one. -/
theorem Interleaved.scan (interleaved : Interleaved lexemes text) :
    (scan text).errors = [] ∧ (scan text).tokens.map Token.withoutLine =
        lexemes ++ [(.endOfText, "")] := by
  rcases interleaved.cut with ⟨parts, cut, sound, same⟩
  rw [cut.scan_eq sound, map_append, same]
  exact ⟨rfl, rfl⟩

theorem interleaved_spaces (alone : ∀ lexeme ∈ lexemes, ReadAlone lexeme.1 lexeme.2) :
    Interleaved lexemes (" ".intercalate (lexemes.map Prod.snd)) := by
  have space : Separator " ".toList := ⟨' ', [], rfl, by decide, .nothing⟩
  induction lexemes with
  | nil => exact .none
  | cons lexeme lexemes ih =>
    rcases forall_mem_cons.mp alone with ⟨first, others⟩
    have further := ih others
    cases lexemes with
    | nil =>
      rw [map_singleton, String.intercalate_singleton]
      exact .last first
    | cons next lexemes =>
      rw [map_cons, map_cons, String.intercalate_cons_cons]
      exact .more first space further

/--
Lexemes with any separators between them are read as exactly these lexemes,
without a fault, and the end of the text.  So the lexemes of a text without
faults, joined by single spaces, are read as the tokens they come from.
-/
theorem separated_lexemes_are_read_back :
    (∀ lexemes text, Interleaved lexemes text → (scan text).errors = [] ∧
        (scan text).tokens.map Token.withoutLine = lexemes ++ [(.endOfText, "")]) ∧
    ∀ text, (scan text).errors = [] →
      let joined :=
        " ".intercalate ((scan text).tokens.dropLast.map Token.lexeme)
      (scan joined).errors = [] ∧ (scan joined).tokens.map Token.withoutLine =
          (scan text).tokens.map Token.withoutLine := by
  refine ⟨fun _ _ interleaved => interleaved.scan, fun text clean => ?_⟩
  have cut := cut_cutAll (Nat.le_refl text.toList.length)
  have read := cut.scan_eq (cut.sound_iff.mp clean)
  have alone : ∀ lexeme ∈ (tokens 1 (cutAll text.toList.length
      text.toList)).map Token.withoutLine, ReadAlone lexeme.1 lexeme.2 := by
    intro lexeme among
    rcases mem_map.mp among with ⟨token, member, rfl⟩
    exact readAlone_iff.mpr (cut.lexeme member)
  have joined := (interleaved_spaces alone).scan
  rw [map_map] at joined
  simp only [read, dropLast_concat, map_append]
  exact joined

/-- Without the separators this text would be one comment. -/
theorem separated_slashes_are_read_back :
    let lexemes := [(.punctuator .slash, "/"), (.punctuator .slash, "/"), (.string "//", "\"//\"")]
    let text := "/" ++ " /*/**/" ++ ("/" ++ "\n//\"\n" ++ "\"//\"")
    Interleaved lexemes text ∧ (scan text).errors = [] ∧ (scan text).tokens.map Token.withoutLine =
        lexemes ++ [(.endOfText, "")] := by
  intro lexemes text
  have slash : ReadAlone (.punctuator .slash) "/" :=
    readAlone_iff.mpr (.mark .slash)
  have unquoted : '"' ∉ ['/', '/'] := by decide
  have string : ReadAlone (.string "//") "\"//\"" :=
    readAlone_iff.mpr (.string unquoted)
  have unclosed : ¬ closing <:+: ['/', '*'] ++ ['*'] := by decide
  have first : Separator " /*/**/".toList :=
    ⟨' ', _, rfl, by decide, .blockComment unclosed .nothing⟩
  have inside : '\n' ∉ ['"'] := by decide
  have second : Separator "\n//\"\n".toList :=
    ⟨'\n', _, rfl, by decide, .lineComment inside .nothing⟩
  have interleaved : Interleaved lexemes text :=
    .more slash first (.more slash second (.last string))
  exact ⟨interleaved, separated_lexemes_are_read_back.1 _ _ interleaved⟩

end Treewalk
