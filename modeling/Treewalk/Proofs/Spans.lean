import Treewalk.Proofs.GuardedScan
import Treewalk.Proofs.Separation

/-!
# Where the items of a text stand

Each item of a text is read from a range of its bytes.  A guarded head that is
called again and again gives these items one by one, with the ranges it has
gone over, and then nothing any more.
-/

namespace Treewalk

open List

/-- The line that an item is on. -/
def Item.line : Item → Nat
  | .token scanned => scanned.line
  | .error fault => fault.line

namespace Scan

variable {rest before gap : List Char} {parts : List Part}

/-! ## Spans -/

/-- An item and the bytes it was read from, of which `last` is behind them. -/
structure Span where
  item : Item
  first : Nat
  last : Nat
deriving DecidableEq, Repr

/--
An item and what the head has in hand behind it.  Once the head is past the end
of the text, the end has been reported, which is read from no byte.
-/
def Head.span (head : Head) (item : Item) : Span :=
  if head.source.size < head.current then
    ⟨item, head.source.size, head.source.size⟩
  else
    ⟨item, head.start, head.current⟩

/-- What a guarded head gives when it is called so many times. -/
def Guarded.results (fuel : Nat) :
    Nat → Head → Except Halt (List (Option Span))
  | 0, _ => .ok []
  | calls + 1, head => do
      match ← next fuel head with
      | some (item, after) =>
        let others ← results fuel calls after
        return some (after.span item) :: others
      | none =>
        let others ← results fuel calls head
        return none :: others

/-- The text between two indices that do not cut a character. -/
def between? (text : String) (first last : Nat) : Option String :=
  (Head.ofText text).slice? first last

/--
Between the indices there is blank space and comments that are ended.  At the
end of the text a line comment may be ended by that.
-/
def Gap (text : String) (first last : Nat) : Prop :=
  ∃ gap, between? text first last = some gap ∧
    (Filler gap.toList ∨ last = text.utf8ByteSize ∧ ∃ filler comment,
        gap.toList = filler ++ '/' :: '/' :: comment ∧ Filler filler ∧ '\n' ∉ comment)

/-- There are gaps in front of all spans, the first one from an index on. -/
def Gaps (text : String) : Nat → List Span → Prop
  | _, [] => True
  | index, span :: spans =>
    Gap text index span.first ∧ Gaps text span.last spans

/-- The spans of the items of a text. -/
structure Tiling (text : String) (spans : List Span) : Prop where
  /-- A span ends before the next one starts. -/
  apart : spans.Pairwise fun span later => span.last ≤ later.first
  /-- Nothing else is between them. -/
  gaps : Gaps text 0 spans
  /-- A token has the text of its span. -/
  lexemes : ∀ span ∈ spans, ∀ token, span.item = .token token →
    between? text span.first span.last = some token.lexeme
  /-- An item is on the line that its span ends on. -/
  lines : ∀ span ∈ spans, ∃ before, between? text 0 span.last = some before ∧
      span.item.line = 1 + before.toList.count '\n'
  /-- The end is reported last, and only then; all else is read from bytes. -/
  ending : ∃ front, spans = front ++
      [⟨.token ⟨.endOfText, "", 1 + text.toList.count '\n'⟩,
        text.utf8ByteSize, text.utf8ByteSize⟩] ∧ ∀ span ∈ front, span.first < span.last ∧
      span.last ≤ text.utf8ByteSize ∧ ∀ token, span.item = .token token → token.kind ≠ .endOfText

/-! ## Spans of parts -/

/-- How many bytes the characters take. -/
def width (characters : List Char) : Nat :=
  (encode characters).length

/-- The spans of the parts behind some characters. -/
def spansFrom (before : List Char) : List Part → List Span
  | [] =>
    [⟨.token (endToken (1 + newlines before)), width before, width before⟩]
  | part :: parts =>
    let after := before ++ part.taken
    let line := 1 + newlines after
    match part.meaning with
    | .blank => spansFrom after parts
    | .token kind =>
      ⟨.token ⟨kind, String.ofList part.taken, line⟩, width before,
        width after⟩ :: spansFrom after parts
    | .fault fault =>
      ⟨.error ⟨line, fault⟩, width before, width after⟩ :: spansFrom after parts

theorem width_append (text after : List Char) :
    width (text ++ after) = width text + width after := by
  rw [width, encode_append, length_append]
  rfl

variable {taken : List Char} {text : String}

theorem width_lt_append (nonempty : taken ≠ []) (before : List Char) :
    width before < width (before ++ taken) := by
  have positive := length_pos_iff.mpr nonempty
  have enough : taken.length ≤ width taken := length_le_encode taken
  rw [width_append]
  omega

theorem bytes_ofText (text : String) :
    (Head.ofText text).source.data.toList = encode text.toList := by
  rw [← (reads_ofText text).ahead, Head.ahead_eq]
  rfl

theorem width_toList (text : String) : width text.toList = text.utf8ByteSize := by
  rw [width, ← bytes_ofText]
  rfl

/-- The text between two places is cut out by its bytes. -/
theorem between?_eq {inside after : List Char} (whole : text.toList = before ++ inside ++ after) :
    between? text (width before) (width (before ++ inside)) = some (String.ofList inside) := by
  apply Head.slice?_eq inside after
  · rw [bytes_ofText, whole, append_assoc, encode_append, width, drop_left]
  · exact width_append before inside

theorem items_spansFrom (before : List Char) (parts : List Part) :
    (spansFrom before parts).map Span.item = items (1 + newlines before) parts := by
  induction parts generalizing before with
  | nil => rfl
  | cons part parts ih =>
    have others := ih (before ++ part.taken)
    rw [newlines_append, ← Nat.add_assoc] at others
    unfold spansFrom items
    simp only [newlines_append, ← Nat.add_assoc]
    cases part.meaning with
    | blank => exact others
    | token kind | fault fault => exact congrArg (cons _) others

/-! ## Calls of a head -/

/-- The head gives these spans when it is called: none once it is past the end. -/
inductive Faces : Head → List Span → Prop where
  | parts {head before rest parts}
      (reads : head.Reads rest) (cut : Cut rest parts) (current : head.current = width before)
      (line : head.line = 1 + newlines before) :
      Faces head (spansFrom before parts)
  | past {head} (beyond : head.source.size < head.current) :
      Faces head []

/-- The head finds the first span and faces the others behind it. -/
def Finds (head : Head) (found : Option (Item × Head)) (spans : List Span) : Prop :=
  ∃ item after others, found = some (item, after) ∧
    spans = after.span item :: others ∧ after.source = head.source ∧ Faces after others

theorem Finds.of_part {head after : Head} (reads : after.Reads rest) (cut : Cut rest parts)
    (moved : after = { head with start := head.current }.move taken)
    (current : head.current = width before) (line : after.line = 1 + newlines (before ++ taken))
    (item : Item) :
    Finds head (some (item, after))
      (⟨item, width before, width (before ++ taken)⟩ :: spansFrom (before ++ taken) parts) := by
  have behind : after.current = width (before ++ taken) := by
    rw [moved, Head.current_move, width_append, ← current]
    rfl
  refine ⟨item, after, _, rfl, ?_, by rw [moved]; rfl, .parts reads cut behind line⟩
  have starts : after.start = width before := by
    rw [moved, ← current]
    rfl
  rw [Head.span, if_neg (Nat.not_lt.mpr reads.within), starts, behind]

/-- A head finds the item of the next part. -/
theorem finds_nextWithin {head : Head} (cut : Cut rest parts) (reads : head.Reads rest)
    (current : head.current = width before) (line : head.line = 1 + newlines before) {lexemes : Nat}
    (enough : rest.length < lexemes) :
    Finds head (head.nextWithin lexemes) (spansFrom before parts) := by
  induction cut generalizing head before lexemes with
  | nil =>
    cases lexemes with
    | zero => cases enough
    | succ lexemes =>
      have size := Head.size_of_reads reads
      rw [encode_nil, length_nil, Nat.add_zero] at size
      have beyond : head.advance.source.size < head.advance.current := by
        simp only [Head.advance]
        omega
      refine ⟨_, _, [], reads.nextWithin_nil lexemes, ?_, rfl, .past beyond⟩
      rw [Head.span, if_pos beyond, line]
      show _ = [Span.mk _ head.source.size head.source.size]
      rw [size, current]
      rfl
  | @cons first rest meaning taken after parts front others ih =>
    cases lexemes with
    | zero => cases enough
    | succ lexemes =>
      have shorter := length_rest_piece first rest
      rcases reads.nextWithin_cons lexemes with ⟨behind, further, moved, lines, found⟩
      simp only [front] at further moved lines found shorter
      rw [length_cons] at enough
      have ends : behind.line = 1 + newlines (before ++ taken) := by
        rw [lines, line, newlines_append, Nat.add_assoc]
      have spanned := Finds.of_part further others moved current ends
      rw [found, ends]
      cases meaning with
      | token kind | fault fault => exact spanned _
      | blank =>
        -- No item comes of this part, so the head goes on to the next.
        have goesOn : behind.current = width (before ++ taken) := by
          rw [moved, Head.current_move, width_append, ← current]
          rfl
        rcases ih further goesOn ends (show after.length < lexemes by omega) with
          ⟨item, later, spans, same, parted, source, faces⟩
        refine ⟨item, later, spans, same, parted, ?_, faces⟩
        rw [source, moved]
        rfl

section

variable {head : Head} {spans : List Span} {fuel : Nat} (faces : Faces head spans)
  (enough : head.source.size < fuel)

include faces enough

/-- A head that faces spans gives the first of them, and nothing after all. -/
theorem Faces.next :
    (spans = [] ∧ Guarded.next fuel head = .ok none) ∨ ∃ found, Guarded.next fuel head = .ok found ∧
        Finds head found spans := by
  cases faces with
  | past beyond =>
    have fuelled : 0 < fuel := Nat.lt_of_le_of_lt (Nat.zero_le _) enough
    exact .inl ⟨rfl, Guarded.next_of_past fuelled beyond⟩
  | @parts before rest parts reads cut current line =>
    have size := Head.size_of_reads reads
    have length := length_le_encode rest
    have ahead : head.ahead.length ≤ fuel := by
      rw [reads.ahead]
      omega
    have room : rest.length < fuel := by omega
    refine .inr ⟨_, Guarded.nextWithin_eq reads ahead room, ?_⟩
    exact finds_nextWithin cut reads current line room

theorem Faces.results (calls : Nat) :
    Guarded.results fuel calls head = .ok ((range calls).map fun call => spans[call]?) := by
  induction calls generalizing head spans with
  | zero => rfl
  | succ calls ih =>
    rw [range_succ_eq_map, map_cons, map_map]
    rcases faces.next enough with
      ⟨rfl, nothing⟩ | ⟨_, given, item, after, others, rfl, rfl, source, further⟩
    · have later := ih faces enough
      rw [Guarded.results, nothing]
      show (Guarded.results fuel calls head >>= _) = _
      rw [later]
      rfl
    · have later := ih further (source ▸ enough)
      rw [Guarded.results, given]
      show (Guarded.results fuel calls after >>= _) = _
      rw [later]
      rfl

end

/-! ## Spans in their text -/

/-- The span is that of some characters behind others. -/
structure Span.Covers (span : Span) (before inside : List Char) : Prop where
  first : span.first = width before
  last : span.last = width (before ++ inside)
  line : span.item.line = 1 + newlines (before ++ inside)
  lexeme : ∀ token, span.item = .token token → token.lexeme = String.ofList inside

theorem covers_of_mem (cut : Cut rest parts) {span : Span} (mem : span ∈ spansFrom before parts) :
    ∃ passed inside after, before ++ rest = before ++ passed ++ inside ++ after ∧
        span.Covers (before ++ passed) inside := by
  induction cut generalizing before with
  | nil =>
    cases mem_singleton.mp mem
    refine ⟨[], [], [], by simp, ?_, ?_, ?_, ?_⟩
    · rw [append_nil]
    · rw [append_nil, append_nil]
    · rw [append_nil, append_nil]
      rfl
    · rintro token ⟨⟩
      rfl
  | @cons first rest meaning taken after parts front others ih =>
    have whole := piece_append first rest
    rw [front] at whole
    -- The span is that of this part, or it is found further on.
    have here {item : Item} (line : item.line = 1 + newlines (before ++ taken))
        (lexeme : ∀ token, item = .token token → token.lexeme = String.ofList taken) :
        Span.Covers ⟨item, width before, width (before ++ taken)⟩ (before ++ []) taken := by
      rw [append_nil]
      exact ⟨rfl, rfl, line, lexeme⟩
    have later (mem : span ∈ spansFrom (before ++ taken) parts) :
        ∃ passed inside after, before ++ first :: rest = before ++ passed ++ inside ++ after ∧
          span.Covers (before ++ passed) inside := by
      rcases ih mem with ⟨passed, inside, behind, same, covers⟩
      rw [append_assoc before taken passed] at covers
      refine ⟨taken ++ passed, inside, behind, ?_, covers⟩
      rw [← whole, ← append_assoc, same]
      simp
    have text : before ++ first :: rest = before ++ [] ++ taken ++ after := by
      rw [← whole, append_nil, append_assoc]
    cases meaning with
    | blank => exact later mem
    | token kind =>
      rcases mem_cons.mp mem with rfl | mem
      · refine ⟨[], taken, after, text, here rfl ?_⟩
        rintro token ⟨⟩
        rfl
      · exact later mem
    | fault fault =>
      rcases mem_cons.mp mem with rfl | mem
      · exact ⟨[], taken, after, text, here rfl nofun⟩
      · exact later mem

theorem pairwise_spansFrom (cut : Cut rest parts) :
    (spansFrom before parts).Pairwise fun span later => span.last ≤ later.first := by
  induction cut generalizing before with
  | nil => exact pairwise_singleton _ _
  | @cons first rest meaning taken after parts front others ih =>
    have behind : ∀ span ∈ spansFrom (before ++ taken) parts,
        width (before ++ taken) ≤ span.first := by
      intro span mem
      rcases covers_of_mem others mem with ⟨passed, _, _, _, covers⟩
      rw [covers.first, width_append (before ++ taken)]
      exact Nat.le_add_right _ _
    cases meaning with
    | blank => exact ih
    | token kind | fault fault => exact pairwise_cons.mpr ⟨behind, ih⟩

theorem Lexeme.not_end {kind : TokenKind} (lexeme : Lexeme kind taken) : kind ≠ .endOfText := by
  cases lexeme <;> exact nofun

/-- Only the end is read from no character. -/
theorem spansFrom_eq_append {before rest : List Char} {parts : List Part} (cut : Cut rest parts) :
    ∃ front, spansFrom before parts = front ++ [⟨.token (endToken (1 + newlines (before ++ rest))),
          width (before ++ rest), width (before ++ rest)⟩] ∧
      ∀ span ∈ front, span.first < span.last ∧
        ∀ token, span.item = .token token → token.kind ≠ .endOfText := by
  induction cut generalizing before with
  | nil =>
    refine ⟨[], ?_, nofun⟩
    rw [append_nil]
    rfl
  | @cons first rest meaning taken after parts read others ih =>
    have whole := piece_append first rest
    have front := front_piece first rest
    rw [read] at whole front
    rcases @ih (before ++ taken) with ⟨spans, same, proper⟩
    rw [append_assoc, whole] at same
    have nonempty : taken ≠ [] := by
      rcases piece_reads first rest with ⟨more, takes, _⟩
      simp only [read] at takes
      rw [takes]
      exact cons_ne_nil _ _
    have wider := width_lt_append nonempty before
    cases meaning with
    | blank => exact ⟨spans, same, proper⟩
    | token kind =>
      cases front with
      | token _ _ lexeme _ =>
        refine ⟨_ :: spans, congrArg (cons _) same,
          forall_mem_cons.mpr ⟨⟨wider, ?_⟩, proper⟩⟩
        rintro token ⟨⟩
        exact lexeme.not_end
    | fault fault =>
      exact ⟨_ :: spans, congrArg (cons _) same,
        forall_mem_cons.mpr ⟨⟨wider, nofun⟩, proper⟩⟩

/-! ## Gaps -/

theorem Filler.append {filler other : List Char} (fills : Filler filler)
    (further : Filler other) : Filler (filler ++ other) := by
  induction fills with
  | nothing => exact further
  | blank blank _ ih => exact .blank blank ih
  | lineComment inside _ ih =>
    have whole := Filler.lineComment inside ih
    simpa only [cons_append, append_assoc] using whole
  | blockComment first _ ih =>
    have whole := Filler.blockComment first ih
    simpa only [cons_append, append_assoc] using whole

/--
What has been skipped in front of a text: a filler, or one and a line comment
whose line is not ended yet.
-/
inductive Pending : List Char → List Char → Prop where
  | filled {filler : List Char} (fills : Filler filler) (rest : List Char) :
      Pending filler rest
  | comment {filler comment rest : List Char} (fills : Filler filler)
      (inside : '\n' ∉ comment) (ends : ∀ next ∈ rest.head?, next = '\n') :
      Pending (filler ++ '/' :: '/' :: comment) rest

/-- What is skipped next belongs to the same gap. -/
theorem Pending.skip (pending : Pending gap (taken ++ rest)) (front : Front .blank taken rest) :
    Pending (gap ++ taken) rest := by
  cases pending with
  | filled fills =>
    cases front with
    | blank blank => exact .filled (fills.append (.blank blank .nothing)) rest
    | lineComment inside ends => exact .comment fills inside ends
    | @blockComment comment first =>
      have closed := Filler.blockComment first .nothing
      rw [append_nil] at closed
      exact .filled (fills.append closed) rest
  | @comment filler comment _ fills inside ends =>
    -- Only the end of the line can follow.
    cases front with
    | blank blank =>
      have same := ends _ rfl
      subst same
      have closed := fills.append (.lineComment inside .nothing)
      refine .filled ?_ rest
      simpa only [append_assoc, cons_append] using closed
    | lineComment | blockComment => cases ends _ rfl

/-- An unfinished comment is not followed by an item. -/
theorem Pending.filler {after : List Char} {first : Char} {meaning : Meaning}
    (pending : Pending gap (first :: rest)) (read : piece first rest = ⟨meaning, taken, after⟩)
    (visible : meaning ≠ .blank) : Filler gap := by
  cases pending with
  | filled fills => exact fills
  | comment _ _ ends =>
    have same := ends _ rfl
    subst same
    cases read
    exact absurd rfl visible

/-- Between two spans there are fillers only. -/
theorem gaps_spansFrom (cut : Cut rest parts) (whole : text.toList = before ++ gap ++ rest)
    (pending : Pending gap rest) : Gaps text (width before) (spansFrom (before ++ gap) parts) := by
  induction cut generalizing before gap with
  | nil =>
    refine ⟨⟨_, between?_eq whole, ?_⟩, trivial⟩
    rw [String.toList_ofList]
    cases pending with
    | filled fills => exact .inl fills
    | @comment filler comment _ fills inside =>
      refine .inr ⟨?_, filler, comment, rfl, fills, inside⟩
      rw [← width_toList, whole, append_nil]
  | @cons first rest meaning taken after parts read others ih =>
    have parted := piece_append first rest
    have front := front_piece first rest
    rw [read] at parted front
    have further : text.toList = before ++ (gap ++ taken) ++ after := by
      rw [whole, ← parted]
      simp
    have behind : text.toList = before ++ gap ++ taken ++ [] ++ after := by
      rw [further]
      simp
    have item (visible : meaning ≠ .blank) :
        Gap text (width before) (width (before ++ gap)) ∧ Gaps text (width (before ++ gap ++ taken))
            (spansFrom (before ++ gap ++ taken) parts) := by
      have later := ih behind (.filled .nothing after)
      rw [append_nil] at later
      refine ⟨⟨_, between?_eq whole, .inl ?_⟩, later⟩
      rw [String.toList_ofList]
      exact pending.filler read visible
    cases meaning with
    | blank =>
      rw [← parted] at pending
      have later := ih further (pending.skip front)
      rw [← append_assoc] at later
      exact later
    | token kind | fault fault => exact item nofun

theorem Tiling.of_cut (cut : Cut text.toList parts) : Tiling text (spansFrom [] parts) := by
  have covered {span : Span} (mem : span ∈ spansFrom [] parts) :
      ∃ before inside after, text.toList = before ++ inside ++ after ∧ span.Covers before inside :=
    covers_of_mem cut mem
  have whole : text.toList = [] ++ [] ++ text.toList := rfl
  constructor
  · exact pairwise_spansFrom cut
  · exact gaps_spansFrom cut whole (.filled .nothing _)
  · intro span mem token same
    rcases covered mem with ⟨before, inside, after, whole, covers⟩
    rw [covers.first, covers.last, covers.lexeme token same]
    exact between?_eq whole
  · intro span mem
    rcases covered mem with ⟨before, inside, after, whole, covers⟩
    have upTo : between? text (width []) (width ([] ++ (before ++ inside))) =
        some (String.ofList (before ++ inside)) := between?_eq whole
    rw [nil_append, ← covers.last] at upTo
    refine ⟨_, upTo, ?_⟩
    rw [covers.line, String.toList_ofList]
    rfl
  · rcases @spansFrom_eq_append [] _ _ cut with ⟨front, same, proper⟩
    rw [nil_append, width_toList] at same
    refine ⟨front, same, fun span mem => ?_⟩
    rcases proper span mem with ⟨nonempty, visible⟩
    refine ⟨nonempty, ?_, visible⟩
    have among : span ∈ spansFrom [] parts := by
      rw [same]
      exact mem_append_left _ mem
    rcases covered among with ⟨before, inside, after, whole, covers⟩
    rw [covers.last, ← width_toList, whole, width_append _ after]
    exact Nat.le_add_right _ _

end Scan

open Scan

/--
The items of a text stand in ranges of its bytes, one behind the other, with
only blank space and comments between them, and the end of the text is the last
of them.  A head that is called again and again gives exactly these items from
these ranges, and nothing after them, however often it is called; it never asks
for a byte that is not there, cuts a text out of range or inside a character,
or loops without end.
-/
theorem items_tile_the_text (text : String) :
    ∃ spans, Tiling text spans ∧ spans.map Span.item = scanItems text ∧
      ∀ fuel calls, text.utf8ByteSize < fuel → Guarded.results fuel calls (.ofText text) =
          .ok ((List.range calls).map fun call => spans[call]?) := by
  have cut := cut_cutAll (Nat.le_refl text.toList.length)
  refine ⟨_, Tiling.of_cut cut, ?_, fun fuel calls enough => ?_⟩
  · rw [cut.scanItems_eq, items_spansFrom]
    rfl
  · have faces : Faces (.ofText text) (spansFrom [] _) :=
      .parts (reads_ofText text) cut rfl rfl
    exact faces.results enough calls

end Treewalk
