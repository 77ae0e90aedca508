import Treewalk.Execution
import Treewalk.Proofs.Spans

/-!
# What is reported of a text that is no program

A text is refused as soon as its characters or its tokens are at fault, and
then all faults of both kinds are reported.  Faults of characters are found
line by line; those of tokens need not be, since a fault may be found after
those of the text behind it.
-/

namespace Treewalk

open List

/-! ## Diagnostics by line -/

namespace Diagnostic

/-- Both point at a line, and the second one at no line before the first. -/
def NotAfter (diagnostic later : Diagnostic) : Prop :=
  ∃ line laterLine, diagnostic.line? = some line ∧ later.line? = some laterLine ∧ line ≤ laterLine

/-- The diagnostic points at a given line. -/
def isOn (line : Nat) (diagnostic : Diagnostic) : Bool :=
  diagnostic.line? == some line

theorem sortByLine_perm (diagnostics : List Diagnostic) :
    (sortByLine diagnostics).Perm diagnostics :=
  mergeSort_perm _ _

theorem line_le_trans (first second third : Diagnostic)
    (before : decide (first.line?.getD 0 ≤ second.line?.getD 0) = true)
    (after : decide (second.line?.getD 0 ≤ third.line?.getD 0) = true) :
    decide (first.line?.getD 0 ≤ third.line?.getD 0) = true := by
  rw [decide_eq_true_iff] at before after ⊢
  exact Nat.le_trans before after

theorem line_le_total (first second : Diagnostic) :
    (decide (first.line?.getD 0 ≤ second.line?.getD 0) ||
      decide (second.line?.getD 0 ≤ first.line?.getD 0)) = true := by
  rw [Bool.or_eq_true, decide_eq_true_iff, decide_eq_true_iff]
  exact Nat.le_total _ _

/-- Sorted diagnostics go from line to line. -/
theorem pairwise_sortByLine (diagnostics : List Diagnostic) :
    (sortByLine diagnostics).Pairwise fun diagnostic later =>
      diagnostic.line?.getD 0 ≤ later.line?.getD 0 :=
  (pairwise_mergeSort line_le_trans line_le_total diagnostics).imp
    fun ordered => decide_eq_true_iff.mp ordered

/-- Those on one line keep their order. -/
theorem filter_sortByLine (diagnostics : List Diagnostic) (line : Nat) :
    (sortByLine diagnostics).filter (isOn line) = diagnostics.filter (isOn line) := by
  have level : (diagnostics.filter (isOn line)).Pairwise fun diagnostic later =>
        decide (diagnostic.line?.getD 0 ≤ later.line?.getD 0) = true := by
    refine pairwise_filter.mpr (pairwise_of_forall ?_)
    intro diagnostic later here there
    rw [beq_iff_eq.mp here, beq_iff_eq.mp there]
    exact decide_eq_true (Nat.le_refl _)
  have kept : (diagnostics.filter (isOn line)).Sublist (sortByLine diagnostics) :=
    sublist_mergeSort line_le_trans line_le_total level filter_sublist
  -- Both lists have the same diagnostics, so one cannot be a proper part.
  have inside := kept.filter (isOn line)
  rw [filter_filter] at inside
  simp only [Bool.and_self] at inside
  refine (inside.eq_of_length ?_).symm
  exact ((sortByLine_perm diagnostics).filter (isOn line)).length_eq.symm

theorem pairwise_notAfter {diagnostics : List Diagnostic}
    (placed : ∀ diagnostic ∈ diagnostics, diagnostic.line?.isSome) :
    (sortByLine diagnostics).Pairwise NotAfter := by
  refine (pairwise_sortByLine diagnostics).imp_of_mem ?_
  intro diagnostic later mem laterMember ordered
  rw [(sortByLine_perm diagnostics).mem_iff] at mem laterMember
  rcases Option.isSome_iff_exists.mp (placed diagnostic mem) with ⟨line, here⟩
  rcases Option.isSome_iff_exists.mp (placed later laterMember) with ⟨laterLine, there⟩
  rw [here, there] at ordered
  exact ⟨line, laterLine, here, there, ordered⟩

end Diagnostic

/-! ## Lexical faults -/

namespace Scan

/-- Parts lie one behind the other, so the lines of items never fall. -/
theorem pairwise_items (line : Nat) (parts : List Part) :
    (∀ item ∈ items line parts, line ≤ item.line) ∧ (items line parts).Pairwise fun item later =>
        item.line ≤ later.line := by
  induction parts generalizing line with
  | nil =>
    refine ⟨?_, pairwise_singleton _ _⟩
    intro item mem
    rw [mem_singleton.mp mem]
    exact Nat.le_refl _
  | cons part parts ih =>
    have passed : line ≤ line + newlines part.taken := Nat.le_add_right _ _
    rcases ih (line + newlines part.taken) with ⟨below, sorted⟩
    have behind (item : Item) (mem : item ∈ items (line + newlines part.taken) parts) :
        line ≤ item.line :=
      Nat.le_trans passed (below item mem)
    unfold items
    cases part.meaning with
    | blank => exact ⟨behind, sorted⟩
    | token kind | fault fault =>
      refine ⟨?_, pairwise_cons.mpr ⟨below, sorted⟩⟩
      intro item mem
      rcases mem_cons.mp mem with rfl | mem
      · exact passed
      · exact behind item mem

end Scan

/-- The faults of a scan stand among its items in the same order. -/
theorem Scanned.errors_sublist (items : List Item) :
    ((Scanned.ofItems items).errors.map Item.error).Sublist items := by
  induction items with
  | nil => exact .slnil
  | cons item items ih =>
    cases item with
    | token token => exact ih.cons _
    | error error => exact ih.cons_cons _

/-- Lexical faults are found line by line. -/
theorem pairwise_scan_errors (text : String) : (scan text).errors.Pairwise fun error later =>
      error.line ≤ later.line := by
  have cut := Scan.cut_cutAll (Nat.le_refl text.toList.length)
  have sorted : (scanItems text).Pairwise fun item later =>
      item.line ≤ later.line := by
    rw [cut.scanItems_eq]
    exact (Scan.pairwise_items 1 _).2
  have errors := sorted.sublist (Scanned.errors_sublist (scanItems text))
  rw [pairwise_map] at errors
  exact errors

/-! ## Reports -/

/-- The lexical faults of a text as they are reported. -/
def lexicalReports (text : String) : List Diagnostic :=
  (scan text).errors.map LexicalError.diagnostic

/-- The faults that are found with the tokens of a text, as reported. -/
def grammarReports (text : String) (firstId : ExprId) : List Diagnostic :=
  match (parse (.ofList (scan text).tokens) firstId).result with
  | .ok _ => []
  | .error errors => errors.map GrammarError.diagnostic

/-- A report of all lexical and all grammatical faults of a text. -/
structure FullReport (lexical grammatical reported : List Diagnostic) :
    Prop where
  /-- Each fault is reported once. -/
  complete : reported.Perm (lexical ++ grammatical)
  /-- Lines do not fall. -/
  sorted : reported.Pairwise Diagnostic.NotAfter
  /-- On one line, lexical faults are first, and both kinds keep their order. -/
  stable : ∀ line, reported.filter (Diagnostic.isOn line) = lexical.filter (Diagnostic.isOn line) ++
      grammatical.filter (Diagnostic.isOn line)

theorem isSome_line?_lexicalReports {text : String} {diagnostic : Diagnostic}
    (mem : diagnostic ∈ lexicalReports text) :
    diagnostic.line?.isSome := by
  rcases mem_map.mp mem with ⟨error, _, rfl⟩
  rfl

/-- Lexical faults alone are in order as they were found. -/
theorem fullReport_lexicalReports (text : String) :
    FullReport (lexicalReports text) [] (lexicalReports text) where
  complete := by rw [append_nil]
  sorted := by
    refine pairwise_map.mpr ((pairwise_scan_errors text).imp ?_)
    intro error later ordered
    exact ⟨error.line, later.line, rfl, rfl, ordered⟩
  stable := by
    intro line
    rw [filter_nil, append_nil]

/-- Sorting all diagnostics makes a full report. -/
theorem fullReport_sortByLine {lexical grammatical : List Diagnostic}
    (placed : ∀ diagnostic ∈ lexical ++ grammatical, diagnostic.line?.isSome) :
    FullReport lexical grammatical (Diagnostic.sortByLine (lexical ++ grammatical)) where
  complete := Diagnostic.sortByLine_perm _
  sorted := Diagnostic.pairwise_notAfter placed
  stable := by
    intro line
    rw [Diagnostic.filter_sortByLine, filter_append]

/-- A text whose tokens are refused has a fault to show for it. -/
theorem parse_error_ne_nil {stream : TokenStream} {firstId : ExprId} {errors : List GrammarError}
    (refused : (parse stream firstId).result = .error errors) : errors ≠ [] := by
  unfold parse at refused
  split at refused
  · simp only at refused
    split at refused
    · cases refused
    · next noted =>
      cases refused
      exact fun empty => noted (isEmpty_iff.mpr empty)
  · cases refused
    exact append_ne_nil_of_right_ne_nil _ (cons_ne_nil _ _)

/--
A text is refused exactly if it has a lexical or a grammatical fault, and then
all of them are reported, in order.
-/
theorem refused_text_reports_all_faults (text : String) (firstId : ExprId) :
    ((∃ failure, (readProgram text firstId).1 = .error failure) ↔
        lexicalReports text ≠ [] ∨ grammarReports text firstId ≠ []) ∧
      ∀ failure, (readProgram text firstId).1 = .error failure →
        ∃ reported, failure = .grammar reported ∧
          FullReport (lexicalReports text) (grammarReports text firstId)
            reported := by
  have lexical_eq : (scan text).errors.map LexicalError.diagnostic =
      lexicalReports text := rfl
  unfold readProgram grammarReports accept
  simp only [lexical_eq]
  cases parsed : (parse (.ofList (scan text).tokens) firstId).result with
  | ok program =>
    cases clean : (lexicalReports text).isEmpty with
    | true =>
      have silent := isEmpty_iff.mp clean
      refine ⟨⟨?_, ?_⟩, ?_⟩
      · rintro ⟨failure, ⟨⟩⟩
      · intro faults
        exact (faults.elim (· silent) (· rfl)).elim
      · rintro failure ⟨⟩
    | false =>
      have reported : lexicalReports text ≠ [] := by
        intro silent
        rw [silent] at clean
        cases clean
      refine ⟨⟨fun _ => .inl reported, fun _ => ⟨_, rfl⟩⟩, ?_⟩
      rintro failure ⟨⟩
      exact ⟨_, rfl, fullReport_lexicalReports text⟩
  | error errors =>
    have reported : errors.map GrammarError.diagnostic ≠ [] :=
      fun silent => parse_error_ne_nil parsed (map_eq_nil_iff.mp silent)
    refine ⟨⟨fun _ => .inr reported, fun _ => ⟨_, rfl⟩⟩, ?_⟩
    rintro failure ⟨⟩
    refine ⟨_, rfl, fullReport_sortByLine ?_⟩
    intro diagnostic member
    rcases mem_append.mp member with member | member
    · exact isSome_line?_lexicalReports member
    · rcases mem_map.mp member with ⟨error, _, rfl⟩
      rfl

/--
The invalid target on the second line is found last, and the tokens of each
line are no reason to leave out the characters that are none.
-/
theorem faults_on_four_lines_are_reported :
    grammarReports "1 @\n=\n2 #\n=\n3;" 0 ≠ [] ∧
      ∃ reported, (readProgram "1 @\n=\n2 #\n=\n3;" 0).1 = .error (.grammar reported) ∧
        FullReport (lexicalReports "1 @\n=\n2 #\n=\n3;")
          (grammarReports "1 @\n=\n2 #\n=\n3;" 0) reported := by
  have found : grammarReports "1 @\n=\n2 #\n=\n3;" 0 ≠ [] := by
    decide +kernel
  refine ⟨found, ?_⟩
  rcases refused_text_reports_all_faults "1 @\n=\n2 #\n=\n3;" 0 with
    ⟨refused, reports⟩
  rcases refused.mpr (.inr found) with ⟨failure, failed⟩
  rcases reports failure failed with ⟨reported, rfl, full⟩
  exact ⟨reported, failed, full⟩

end Treewalk
