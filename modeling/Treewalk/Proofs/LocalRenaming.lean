import Treewalk.Proofs.ProgramSimulation
import Treewalk.Proofs.RelabelledReading
import Treewalk.Proofs.RespelledStatements
import Treewalk.Proofs.TextRespelling

/-!
# Local variables can be renamed

A variable or parameter of a local scope is chosen by the position of its token
in the text, and renamed with all occurrences that the analysis binds to it.
Uses are found in the tree of the text with positions in the place of lines:
neither the grammar nor the analysis looks at lines.
-/

namespace Treewalk

open Scan List Scoping

/-- Tokens with their positions in the place of lines. -/
def numbered (tokens : List Token) : List Token :=
  tokens.mapIdx fun position token => { token with line := position }

/-- The uses of the tokens of a text, with positions in the place of lines. -/
def nameUses (text : String) : List NameUse :=
  match (parse (.ofList (numbered (scan text).tokens)) 0).result with
  | .ok program => Program.uses program
  | .error _ => []

/-- Where the variables and parameters of local scopes are declared. -/
def localVariables (text : String) : List Nat :=
  ((nameUses text).filter fun use => use.declaration == some use.token).map
    fun use => use.token.line

/-- Where the tokens are that stand for the variable declared at a site. -/
def boundTo (text : String) (site : Nat) : List Nat :=
  ((nameUses text).filter fun use =>
    use.declaration.any fun declaration => declaration.line == site).map fun use => use.token.line

/-- Rename the variable declared at a site, and what stands for it. -/
def renameVariable (text : String) (site : Nat) (name : String) : String :=
  String.ofList (written (respell (boundTo text site).contains name 0
    (cutAll text.toList.length text.toList)))

/-! ## Tokens with positions -/

/-- A numbered token leads back to the token at its position. -/
theorem mem_numbered {tokens : List Token} {token : Token} (mem : token ∈ numbered tokens) :
    ∃ source, tokens[token.line]? = some source ∧ token = { source with line := token.line } := by
  rcases mem_mapIdx.mp mem with ⟨position, inside, rfl⟩
  exact ⟨tokens[position], getElem?_eq_getElem inside, rfl⟩

/-- Tokens with positions can be told apart. -/
theorem count_numbered_le (tokens : List Token) (token : Token) :
    (numbered tokens).count token ≤ 1 := by
  have distinct : (numbered tokens).Nodup := by
    refine List.Nodup.of_map Token.line ?_
    have lines : (numbered tokens).map Token.line = range tokens.length := by
      refine ext_getElem (by simp [numbered]) ?_
      intro position inside _
      simp [numbered]
    rw [lines]
    exact nodup_range
  exact nodup_iff_count_le_one.mp distinct token

/-- Tokens get back their lines, and chosen ones a new lexeme. -/
def restore (tokens : List Token) (chosen : Nat → Bool) (name : String) : Relabelling where
  token token :=
    { kind := token.kind
      lexeme := if chosen token.line then name else token.lexeme
      line := (tokens[token.line]?.map Token.line).getD 0 }
  kind _ := rfl

section

variable (tokens : List Token) (chosen : Nat → Bool) (name : String)

include tokens chosen name

/-- Restoring lines respells the chosen positions only. -/
theorem map_restore_numbered :
    (numbered tokens).map (restore tokens chosen name) = tokens.mapIdx fun position token =>
        if chosen position then { token with lexeme := name } else token := by
  refine ext_getElem? fun position => ?_
  rw [numbered, getElem?_map, getElem?_mapIdx, getElem?_mapIdx]
  cases here : tokens[position]? with
  | none => rfl
  | some token =>
    simp only [Option.map_some, restore, here, Option.getD_some]
    split <;> rfl

end

theorem restore_none (tokens : List Token) (name : String) :
    (restore tokens (fun _ => false) name).KeepsLexemes :=
  fun _ => rfl

theorem map_restore_none (tokens : List Token) (name : String) :
    (numbered tokens).map (restore tokens (fun _ => false) name) = tokens := by
  rw [map_restore_numbered]
  refine ext_getElem? fun position => ?_
  rw [getElem?_mapIdx]
  cases tokens[position]? <;> rfl

/-! ## The tree with positions -/

/-- A program, the tree with positions behind it, and their tokens. -/
structure Numbered (text : String) (tokens : List Token) (nextId : ExprId)
    (program template : Program) : Prop where
  program : program = Stmt.relabelAll (restore tokens (fun _ => false) "") 0 template
  uses : nameUses text = Program.uses template
  derives : ∀ change : Relabelling,
    Grammar.Derives .nearest .declarations ((numbered tokens).map change) 0
      (Stmt.relabelAll change 0 template) [] nextId
  spelled : ∀ token ∈ tokens, token.Spelled

variable {parts : List Part} {text : String} {nextId : ExprId}

theorem Scan.Cut.stream_numbered (cut : Cut text.toList parts) (sound : Sound parts) :
    (TokenStream.ofList (numbered (scan text).tokens)).tokens = numbered (tokens 1 parts) := by
  rw [cut.scan_eq sound, numbered, mapIdx_append]
  refine tokens_ofList rfl ?_
  intro token mem
  rcases mem_numbered mem with ⟨source, found, same⟩
  rw [same]
  exact (cut.mem_tokens 1 source (mem_of_getElem? found)).1

variable {program template : Program} {site : Nat}

theorem Scan.Cut.exists_numbered (cut : Cut text.toList parts)
    (read : readProgram text 0 = (.ok program, nextId)) :
    Sound parts ∧ ∃ template, Numbered text (tokens 1 parts) nextId program template := by
  rcases readProgram_ok_iff.mp read with ⟨clean, derivation⟩
  have sound := cut.sound_iff.mp clean
  have stream := cut.stream_eq sound
  rw [stream] at derivation
  refine ⟨sound, ?_⟩
  rw [← map_restore_none (tokens 1 parts) "", ← Nat.add_zero 0] at derivation
  rcases derivation.template with ⟨template, _, positions, whole, rfl⟩
  refine ⟨template, whole, ?_, fun change => positions.relabelled change 0, ?_⟩
  · rw [← cut.stream_numbered sound] at positions
    rw [nameUses, parse_of_derives positions]
  · intro token mem
    rw [← stream] at mem
    exact scan_spelled ((takeWhile_sublist _).subset mem)

namespace Numbered

variable {tokens : List Token}

section

variable (numbering : Numbered text tokens nextId program template)

include numbering

theorem derivation :
    Grammar.Derives .nearest .declarations (numbered tokens) 0 template [] nextId := by
  have positions := numbering.derives .identity
  rw [Stmt.relabelAll_identity, Relabelling.map_identity] at positions
  exact positions

/-- The analysis does not look at lines. -/
theorem analyse_eq :
    analyse program = (analyse template).relabel
        (restore tokens (fun _ => false) "") 0 := by
  rw [numbering.program]
  exact analyse_relabel (restore_none tokens "") 0 template

/-- Each token of the text has one use at most. -/
theorem mem_uses {use : NameUse} (mem : use ∈ nameUses text) :
    use.token ∈ numbered tokens ∧ use.Named ∧
      ∀ other ∈ nameUses text, other.token.line = use.token.line → other = use := by
  rw [numbering.uses] at mem ⊢
  have inside : ∀ other ∈ Program.uses template, other.token ∈ numbered tokens :=
    fun other among => numbering.derivation.token_mem_of_mem_uses among
  have distinct : ((Program.uses template).map NameUse.token).Nodup :=
    nodup_iff_count_le_one.mpr fun token =>
      Nat.le_trans (numbering.derivation.count_uses_le _ token) (count_numbered_le tokens token)
  refine ⟨inside use mem, numbering.derivation.named _ _ use mem, ?_⟩
  intro other among line
  refine inj_on_of_nodup_map distinct among mem ?_
  rcases mem_numbered (inside other among) with ⟨source, found, same⟩
  rcases mem_numbered (inside use mem) with ⟨source', found', same'⟩
  rw [line] at found same
  cases found.symm.trans found'
  exact same.trans same'.symm

theorem mem_boundTo {position : Nat} (bound : position ∈ boundTo text site) :
    ∃ token, tokens[position]? = some token ∧ token.kind = .identifier := by
  rcases mem_map.mp bound with ⟨use, among, rfl⟩
  rcases mem_filter.mp among with ⟨mem, stands⟩
  rcases (Option.any_eq_true _ _).mp stands with ⟨decl, found, _⟩
  rcases numbering.mem_uses mem with ⟨inside, named, _⟩
  rcases mem_numbered inside with ⟨token, here, same⟩
  have identifier := named decl found
  rw [same] at identifier
  exact ⟨token, here, identifier⟩

theorem mem_localVariables (declared : site ∈ localVariables text) :
    ∃ use ∈ nameUses text, use.declaration = some use.token ∧
      use.token.line = site ∧ site ∈ boundTo text site ∧
      ∃ token, tokens[site]? = some token ∧ token.kind = .identifier ∧
        token.lexeme = use.token.lexeme := by
  rcases mem_map.mp declared with ⟨use, among, rfl⟩
  rcases mem_filter.mp among with ⟨mem, itself⟩
  have stands := beq_iff_eq.mp itself
  rcases numbering.mem_uses mem with ⟨inside, named, _⟩
  rcases mem_numbered inside with ⟨token, here, same⟩
  refine ⟨use, mem, stands, rfl, ?_, token, here, ?_, ?_⟩
  · refine mem_map.mpr ⟨use, mem_filter.mpr ⟨mem, ?_⟩, rfl⟩
    rw [stands, Option.any_some, beq_self_eq_true]
  · have identifier := named use.token stands
    rw [same] at identifier
    exact identifier
  · rw [same]

end

end Numbered

/-- Give what is bound to a site a new name. -/
def respellingAt (text : String) (site : Nat) (old new : String)
    (old_ne : old ≠ "this") (new_ne : new ≠ "this") : Respelling where
  old := old
  new := new
  target token := token.line == site
  marked token := (boundTo text site).contains token.line
  old_ne := old_ne
  new_ne := new_ne

/-- Respelling the uses of a declaration gives a program alike. -/
theorem Numbered.respelled {tokens : List Token}
    (numbering : Numbered text tokens nextId program template) {decl : NameUse}
    (declared : decl ∈ nameUses text) (itself : decl.declaration = some decl.token)
    (line : decl.token.line = site) {new : String} (unused : ∀ token ∈ tokens, token.lexeme ≠ new)
    (old_ne : decl.token.lexeme ≠ "this") (new_ne : new ≠ "this") :
    ∀ use ∈ nameUses text, use.Respelled
      (respellingAt text site decl.token.lexeme new old_ne new_ne) := by
  intro use mem
  rcases numbering.mem_uses mem with ⟨inside, _, single⟩
  refine ⟨?_, ?_, ?_⟩
  · -- Positions are bound to a site exactly if their one use is.
    show (boundTo text site).contains use.token.line =
      use.declaration.any (fun decl => decl.line == site)
    rw [Bool.eq_iff_iff, contains_iff_mem]
    constructor
    · intro bound
      rcases mem_map.mp bound with ⟨other, among, same⟩
      rcases mem_filter.mp among with ⟨others, stands⟩
      rw [← single other others same]
      exact stands
    · intro stands
      exact mem_map.mpr ⟨use, mem_filter.mpr ⟨mem, stands⟩, rfl⟩
  · intro targeted
    have here : use.token.line = decl.token.line :=
      (beq_iff_eq.mp targeted).trans line.symm
    rw [← single decl declared here.symm]
    exact ⟨itself, rfl⟩
  · rcases mem_numbered inside with ⟨source, found, same⟩
    rw [same]
    exact unused source (mem_of_getElem? found)

/-! ## The renamed program -/

theorem isIdentifier_ne_receiver {name : String}
    (identifier : isIdentifier name = true) : name ≠ "this" := by
  rcases isIdentifier_parts identifier with ⟨_, _, _, _, _, unreserved⟩
  rintro rfl
  revert unreserved
  decide

/-- The trees before and after the change are alike, and analysed alike. -/
theorem Numbered.renamed {text : String} {tokens : List Token}
    {nextId : ExprId} {program template : Program}
    (numbering : Numbered text tokens nextId program template) {site : Nat}
    (clean : (analyse program).errors = [])
    (declared : site ∈ localVariables text) {name : String} (identifier : isIdentifier name = true)
    (unused : ∀ token ∈ tokens, token.lexeme ≠ name) :
    let renamed := Stmt.relabelAll (restore tokens (boundTo text site).contains name) 0 template
    let ledger : Ledger :=
      ⟨Distances.empty.recordAll (analyse program).distances, nextId⟩
    Stmt.AllAlike (fun token token' => token'.line = token.line)
        ledger.occurrences [] program renamed ∧
      analyse renamed = analyse program := by
  intro renamed ledger
  rcases numbering.mem_localVariables declared with
    ⟨use, mem, itself, line, _, token, here, kind, lexeme⟩
  have old_ne : use.token.lexeme ≠ "this" := by
    rw [← lexeme]
    exact Token.Names.lexeme ⟨numbering.spelled token (mem_of_getElem? here), kind⟩
  have respelled := numbering.respelled mem itself line unused old_ne
    (isIdentifier_ne_receiver identifier)
  have between : Respelling.Between
      (respellingAt text site use.token.lexeme name old_ne (isIdentifier_ne_receiver identifier))
      (fun token token' => token'.line = token.line) (restore tokens (fun _ => false) "")
      (restore tokens (boundTo text site).contains name) :=
    ⟨restore_none tokens "", fun _ => rfl, fun _ => rfl⟩
  have analysed := numbering.analyse_eq
  have template_clean : (analyse template).errors = [] := by
    rw [analysed] at clean
    exact Scoping.Findings.errors_relabel.mp clean
  rw [Scoping.Findings.relabel_zero template_clean] at analysed
  have resolved : Stmt.AllResolved ledger .outermost template := by
    have spelled : Grammar.Given Token.Spelled (numbered tokens) := by
      intro token mem
      rcases mem_numbered mem with ⟨source, found, same⟩
      have spelled := numbering.spelled source (mem_of_getElem? found)
      rw [same]
      exact ⟨spelled.identifier, spelled.keyword⟩
    have resolve := numbering.derivation.resolve spelled
    have recorded : Stmt.AllResolved (Ledger.recordAll ⟨Distances.empty, 0⟩
        (analyse template).distances nextId) .outermost template :=
      Ledger.fresh_empty.resolved resolve template_clean
    rw [← analysed] at recorded
    exact recorded
  rw [numbering.uses, Program.uses, ← analysed] at respelled
  have result := between.program resolved respelled template_clean
  rw [← numbering.program] at result
  exact ⟨result.1, result.2.trans analysed.symm⟩

/-- The renamed text has the respelled tokens. -/
theorem Numbered.scan_renamed (numbering : Numbered text (tokens 1 parts) nextId program template)
    (cut : Cut text.toList parts) (sound : Sound parts) (site : Nat) {name : String}
    (identifier : isIdentifier name = true) :
    scan (renameVariable text site name) = ⟨(scan text).tokens.mapIdx fun position token =>
          if position ∈ boundTo text site then { token with lexeme := name }
          else token,
          []⟩ ∧
      (TokenStream.ofList (scan (renameVariable text site name)).tokens).tokens =
        (numbered (tokens 1 parts)).map
          (restore (tokens 1 parts) (boundTo text site).contains name) := by
  have names : ∀ (position : Nat) (token : Token), (tokens 1 parts)[position]? = some token →
      (boundTo text site).contains position = true → token.kind = .identifier := by
    intro position token found here
    rcases numbering.mem_boundTo (contains_iff_mem.mp here) with ⟨other, found', kind⟩
    cases found.symm.trans found'
    exact kind
  have ending : (boundTo text site).contains (tokens 1 parts).length = false := by
    rw [Bool.eq_false_iff]
    intro here
    rcases numbering.mem_boundTo (contains_iff_mem.mp here) with ⟨token, found, _⟩
    rw [getElem?_length] at found
    cases found
  rcases cut.scan_respell identifier sound names ending with ⟨rescanned, stream⟩
  rw [renameVariable, cut.cutAll_eq (Nat.le_refl _), map_restore_numbered]
  refine ⟨?_, stream⟩
  rw [rescanned]
  simp

/--
A variable or parameter of a local scope of an accepted text can be given any
name that the text does not use.  The change concerns exactly the tokens that
are bound to the variable, its declaration among them.  The renamed text is
accepted with the distances it had, and all runs write the same and end in the
same way: errors are of the same kind, with the same message, on the same line.
-/
theorem renamed_local_variable_runs_alike {text name : String} {site : Nat}
    {program : Program} {nextId : ExprId} (read : readProgram text 0 = (.ok program, nextId))
    (clean : (Scoping.analyse program).errors = []) (declared : site ∈ localVariables text)
    (identifier : isIdentifier name = true)
    (unused : ∀ token ∈ (scan text).tokens, token.lexeme ≠ name) :
    site ∈ boundTo text site ∧ (scan (renameVariable text site name)).tokens =
      ((scan text).tokens.mapIdx fun position token =>
        if position ∈ boundTo text site then { token with lexeme := name }
        else token) ∧
    ∃ renamed, readProgram (renameVariable text site name) 0 = (.ok renamed, nextId) ∧
      Scoping.analyse renamed = Scoping.analyse program ∧
      ∀ (fuel : Nat) (clock : Nat → Float) (output : Sink),
        (run fuel clock output (renameVariable text site name)).2.output =
          (run fuel clock output text).2.output ∧
        (run fuel clock output (renameVariable text site name)).1.mapRuntime
            RuntimeError.withoutLexeme = (run fuel clock output text).1.mapRuntime
            RuntimeError.withoutLexeme := by
  have cut : Cut text.toList (cutAll text.toList.length text.toList) :=
    cut_cutAll (Nat.le_refl _)
  rcases cut.exists_numbered read with ⟨sound, template, numbering⟩
  rcases numbering.mem_localVariables declared with ⟨_, _, _, _, itself, _⟩
  rcases numbering.scan_renamed cut sound site identifier with
    ⟨rescanned, stream⟩
  have fresh : ∀ token ∈ tokens 1 (cutAll text.toList.length text.toList), token.lexeme ≠ name := by
    intro token member
    refine unused token ?_
    rw [cut.scan_eq sound]
    exact mem_append_left _ member
  rcases numbering.renamed clean declared identifier fresh with
    ⟨alike, analysed⟩
  have derives := numbering.derives
    (restore (tokens 1 (cutAll text.toList.length text.toList)) (boundTo text site).contains name)
  rw [← stream] at derives
  have reread := readProgram_ok_iff.mpr ⟨congrArg Scanned.errors rescanned, derives⟩
  have unseen : RuntimeError.Unseen RuntimeError.withoutLexeme
      (fun token token' => token'.line = token.line) := by
    intro fault token token' line
    simp only [RuntimeError.withoutLexeme, Fault.report, RuntimeError.ofToken, line]
  exact ⟨itself, congrArg Scanned.tokens rescanned, _, reread, analysed,
    runs_alike unseen read reread clean analysed rfl alike⟩

/-- A variable that a function captures and an inner block shadows. -/
theorem captured_variable_is_renamed :
    let text := "\x7b var a = 1; fun f(b) \x7b print a; a = b; \x7d " ++
      "\x7b var a = 2; f(a); a = 3; print a; \x7d f(nil)(); \x7d"
    let renamed := "\x7b var c = 1; fun f(b) \x7b print c; c = b; \x7d " ++
      "\x7b var a = 2; f(a); a = 3; print a; \x7d f(nil)(); \x7d"
    isAccepted text = true ∧ 2 ∈ localVariables text ∧ isIdentifier "c" = true ∧
      (∀ token ∈ (scan text).tokens, token.lexeme ≠ "c") ∧ renameVariable text 2 "c" = renamed ∧
      ∀ (fuel : Nat) (clock : Nat → Float) (output : Sink),
        (run fuel clock output renamed).2.output = (run fuel clock output text).2.output ∧
        (run fuel clock output renamed).1.mapRuntime RuntimeError.withoutLexeme =
          (run fuel clock output text).1.mapRuntime
            RuntimeError.withoutLexeme := by
  intro text renamed
  have accepted : isAccepted text = true := by decide +kernel
  have declared : 2 ∈ localVariables text := by decide +kernel
  have identifier : isIdentifier "c" = true := by decide +kernel
  have unused : ∀ token ∈ (scan text).tokens, token.lexeme ≠ "c" := by
    decide +kernel
  have changed : renameVariable text 2 "c" = renamed := by decide +kernel
  rcases exists_of_isAccepted accepted with ⟨program, nextId, read, clean⟩
  rcases renamed_local_variable_runs_alike read clean declared identifier
    unused with ⟨_, _, _, _, _, runs⟩
  rw [changed] at runs
  exact ⟨accepted, declared, identifier, unused, changed, runs⟩

end Treewalk
