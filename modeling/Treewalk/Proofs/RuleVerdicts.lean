import Treewalk.Proofs.LenientGrammar
import Treewalk.Proofs.ParserCompleteness

/-!
# Verdicts on the tokens ahead

A rule that reads the tokens of an expression of the lenient grammar either
takes tokens that match it, or meets a token that cannot stand where it does.

What else could be taken depends on what may follow.  A context says which
tokens may stand in front of which: it is the set of hypothetical readings that
the verdict rules out.  Two readings are compared up to the next token, the
only one that a rule looks at.
-/

namespace Treewalk.Rule

open Grammar List

variable {α β : Type}

/-- All faults that are known once a rule has ended. -/
def reported : EStateM.Result GrammarError Cursor α → List GrammarError
  | .ok _ cursor => cursor.errors
  | .error error cursor => cursor.errors ++ [error]

/-- Which tokens may be read as a part, in front of which others. -/
abbrev Context := List Token → List Token → Prop

/-- The faults are noted without stopping a rule. -/
def Harmless (errors : List GrammarError) : Prop :=
  ∀ error ∈ errors, error.fault.stops = false

theorem Harmless.append {errors others : List GrammarError}
    (harmless : Harmless errors) (further : Harmless others) : Harmless (errors ++ others) :=
  fun error mem => (mem_append.mp mem).elim (harmless error) (further error)

theorem harmless_nil : Harmless [] :=
  fun _ mem => nomatch mem

theorem harmless_singleton {error : GrammarError}
    (noted : error.fault.stops = false) : Harmless [error] := by
  intro other mem
  rw [mem_singleton.mp mem]
  exact noted

/-- What one run of a rule comes to. -/
inductive Verdict (part : Ebnf) (context : Context) (cursor : Cursor) :
    EStateM.Result GrammarError Cursor α → Prop where
  /-- The tokens taken match, and no other tokens could have been taken. -/
  | accepts (value : α) {after : Cursor} (taken : List Token) (noted : List GrammarError)
      (ahead : cursor.ahead = taken ++ after.ahead) (ending : after.ending = cursor.ending)
      (errors : after.errors = cursor.errors ++ noted)
      (harmless : Harmless noted) (derived : Matches part taken)
      (only : ∀ front back other, context front back → front ++ back = taken ++ other →
        other.head? = after.ahead.head? → front = taken) :
      Verdict part context cursor (.ok value after)
  /--
  The first fatal fault points at a token that cannot follow the tokens before
  it, which could be completed otherwise.
  -/
  | rejects {result : EStateM.Result GrammarError Cursor α}
      (taken rest : List Token) (noted : List GrammarError)
      (error : GrammarError) (ahead : cursor.ahead = taken ++ rest)
      (first : cursor.errors ++ (noted ++ [error]) <+: reported result)
      (harmless : Harmless noted) (stops : error.fault.stops = true)
      (points : error.token = rest.headD cursor.ending)
      (viable : ∃ more, Matches part (taken ++ more))
      (excluded : ∀ front back other, context front back →
        front ++ back = taken ++ other → other.head? ≠ rest.head?) :
      Verdict part context cursor result

/--
A run drops no fault that was noted before, and comes to a verdict if less than
`size` tokens are ahead.
-/
structure Settled (size : Nat) (part : Ebnf) (context : Context)
    (cursor : Cursor) (result : EStateM.Result GrammarError Cursor α) :
    Prop where
  keeps : cursor.errors <+: reported result
  judged : cursor.ahead.length < size → Verdict part context cursor result

/-- Every run of the rule is settled. -/
def Decides (size : Nat) (rule : Rule α) (part : Ebnf) (context : Context) :
    Prop :=
  ∀ cursor, Settled size part context cursor (rule cursor)

/-- Two lists with the same first token have it also behind other tokens. -/
theorem head?_append_congr {tokens other : List Token} (front : List Token)
    (same : tokens.head? = other.head?) : (front ++ tokens).head? = (front ++ other).head? := by
  cases front with
  | nil => exact same
  | cons token front => rfl

theorem isAhead_congr (test : Token → Bool) {tokens other : List Token}
    (same : tokens.head? = other.head?) : isAhead test tokens = isAhead test other := by
  cases tokens <;> cases other <;> simp_all [isAhead]

theorem sees_eq_isAhead (mark : Punctuator) (cursor : Cursor) :
    cursor.sees mark = isAhead (·.isMark mark) cursor.ahead := by
  rcases cursor with ⟨_ | ⟨token, rest⟩, ending, nextId, errors⟩ <;> rfl

namespace Verdict

variable {part whole : Ebnf} {ctx wider : Context} {cursor : Cursor}
  {result : EStateM.Result GrammarError Cursor α}

theorem weaken (verdict : Verdict part ctx cursor result)
    (derives : ∀ tokens, Matches part tokens → Matches whole tokens)
    (narrows : ∀ front back, wider front back →
      (front ++ back).head? = cursor.ahead.head? → ctx front back) :
    Verdict whole wider cursor result := by
  cases verdict with
  | accepts value taken noted ahead ending errors harmless derived only =>
    refine .accepts value taken noted ahead ending errors harmless
      (derives taken derived) fun front back other admitted split same => ?_
    refine only front back other (narrows front back admitted ?_) split same
    rw [split, ahead]
    exact head?_append_congr taken same
  | rejects taken rest noted error ahead first harmless stops points viable excluded =>
    rcases viable with ⟨more, derived⟩
    refine .rejects taken rest noted error ahead first harmless stops points
      ⟨more, derives _ derived⟩ fun front back other admitted split same => ?_
    refine excluded front back other (narrows front back admitted ?_) split same
    rw [split, ahead]
    exact head?_append_congr taken same

/--
Some tokens are taken before the run that is judged, and every reading of the
whole that agrees with them takes the same ones.
-/
theorem after {middle : Cursor} {taken : List Token} {noted : List GrammarError}
    (verdict : Verdict part ctx middle result) (ahead : cursor.ahead = taken ++ middle.ahead)
    (ending : middle.ending = cursor.ending) (errors : middle.errors = cursor.errors ++ noted)
    (harmless : Harmless noted)
    (derives : ∀ tokens, Matches part tokens → Matches whole (taken ++ tokens))
    (pins : ∀ front back other, wider front back →
      front ++ back = taken ++ other → other.head? = middle.ahead.head? →
        ∃ tokens, front = taken ++ tokens ∧ ctx tokens back) :
    Verdict whole wider cursor result := by
  have pinned {front back next left other : List Token} (admitted : wider front back)
      (split : front ++ back = (taken ++ next) ++ other)
      (within : middle.ahead = next ++ left)
      (same : other.head? = left.head?) :
      ∃ tokens, front = taken ++ tokens ∧ ctx tokens back ∧ tokens ++ back = next ++ other := by
    rw [append_assoc] at split
    have agrees := head?_append_congr next same
    rw [← within] at agrees
    rcases pins front back _ admitted split agrees with ⟨tokens, rfl, narrowed⟩
    rw [append_assoc] at split
    exact ⟨tokens, rfl, narrowed, append_cancel_left split⟩
  cases verdict with
  | accepts value next later within last errors' harmless' derived only =>
    refine .accepts value (taken ++ next) (noted ++ later) ?_
      (last.trans ending) ?_ (harmless.append harmless')
      (derives next derived) fun front back other admitted split same => ?_
    · rw [ahead, within, append_assoc]
    · rw [errors', errors, append_assoc]
    · rcases pinned admitted split within same with ⟨tokens, rfl, narrowed, split⟩
      rw [only tokens back other narrowed split same]
  | rejects next rest later error within first harmless' stops points viable excluded =>
    rcases viable with ⟨more, derived⟩
    refine .rejects (taken ++ next) rest (noted ++ later) error ?_ ?_
      (harmless.append harmless') stops (ending ▸ points) ⟨more, ?_⟩
      fun front back other admitted split same => ?_
    · rw [ahead, within, append_assoc]
    · simpa only [errors, append_assoc] using first
    · rw [append_assoc]
      exact derives _ derived
    · rcases pinned admitted split within same with ⟨tokens, rfl, narrowed, split⟩
      exact excluded tokens back other narrowed split same

/-- A token is taken before the run that is judged. -/
theorem step {token : Token} {rest : List Token} (ahead : cursor.ahead = token :: rest)
    (verdict : Verdict part ctx { cursor with ahead := rest } result)
    (derives : ∀ tokens, Matches part tokens → Matches whole (token :: tokens))
    (narrows : ∀ front back, wider front back → (front ++ back).head? = some token →
        ∃ tokens, front = token :: tokens ∧ ctx tokens back) :
    Verdict whole wider cursor result := by
  have taken : cursor.ahead = [token] ++ rest := ahead
  refine verdict.after taken rfl (append_nil _).symm harmless_nil derives ?_
  intro front back other admitted split _
  exact narrows front back admitted (by rw [split]; rfl)

/-- No token is taken. -/
theorem empty (value : α) {after : Cursor} (noted : List GrammarError)
    (ahead : after.ahead = cursor.ahead) (ending : after.ending = cursor.ending)
    (errors : after.errors = cursor.errors ++ noted)
    (harmless : Harmless noted) (derived : Matches part [])
    (only : ∀ front back, ctx front back →
      (front ++ back).head? = cursor.ahead.head? → front = []) :
    Verdict part ctx cursor (.ok value after) := by
  refine .accepts value [] noted ahead.symm ending errors harmless derived
    fun front back other admitted split same => only front back admitted ?_
  rw [split, ← ahead]
  exact same

/-- A run after which no fatal fault is known has accepted. -/
theorem taken_of_harmless {value : α} {after : Cursor} {noted : List GrammarError}
    (verdict : Verdict part ctx cursor (.ok value after))
    (kept : after.errors <+: cursor.errors ++ noted) (harmless : Harmless noted) :
    ∃ taken further, Matches part taken ∧ cursor.ahead = taken ++ after.ahead ∧
      cursor.errors ++ noted = after.errors ++ further ∧ Harmless further := by
  cases verdict with
  | accepts _ taken before ahead _ errors _ derived _ =>
    rcases kept with ⟨further, same⟩
    refine ⟨taken, further, derived, ahead, same.symm, ?_⟩
    rw [errors, append_assoc] at same
    intro error mem
    refine harmless error ?_
    rw [← append_cancel_left same]
    exact mem_append_right _ mem
  | rejects taken rest before error _ first _ stops _ _ _ =>
    have known := (prefix_append_right_inj _).mp (first.trans kept)
    have mem : error ∈ noted := known.subset (by simp)
    rw [harmless error mem] at stops
    cases stops

/--
One part after the other.  The second rule has to keep what the first one
reported even if the first part is at fault, for it may be run all the same.
-/
theorem bind {other : Ebnf} {first second : Context} {rule : Rule α} {cont : α → Rule β}
    (head : Verdict part first cursor (rule cursor))
    (tail : ∀ value taken (after : Cursor), Matches part taken →
      cursor.ahead = taken ++ after.ahead → Verdict other second after (cont value after))
    (keeps : ∀ value (after : Cursor), after.errors <+: reported (cont value after))
    (live : Live other)
    (joins : ∀ front back, Matches part front → Matches other back → Matches whole (front ++ back))
    (splits : ∀ front back, wider front back → ∃ start rest,
      front = start ++ rest ∧ first start (rest ++ back) ∧ second rest back) :
    Verdict whole wider cursor ((rule >>= cont) cursor) := by
  simp only [Bind.bind, EStateM.bind]
  generalize rule cursor = result at head
  cases head with
  | accepts value taken noted ahead ending errors harmless derived only =>
    refine (tail value taken _ derived ahead).after ahead ending errors
      harmless (fun back => joins taken back derived) ?_
    intro front back other admitted split same
    rcases splits front back admitted with ⟨start, rest, rfl, starting, resting⟩
    rw [append_assoc] at split
    rw [only start _ other starting split same]
    exact ⟨rest, rfl, resting⟩
  | rejects taken rest noted error ahead first harmless stops points viable excluded =>
    rcases viable with ⟨more, derived⟩
    rcases live with ⟨tokens, derived'⟩
    refine .rejects taken rest noted error ahead ?_ harmless stops points
      ⟨more ++ tokens, ?_⟩ fun front back other admitted split => ?_
    · cases result with
      | ok value middle => exact first.trans (keeps value middle)
      | error stopped middle => exact first
    · rw [← append_assoc]
      exact joins _ _ derived derived'
    · rcases splits front back admitted with ⟨start, rest', rfl, starting, _⟩
      rw [append_assoc] at split
      exact excluded start (rest' ++ back) other starting split

end Verdict

variable {size : Nat} {part : Ebnf} {cursor : Cursor}

theorem Settled.weaken {whole : Ebnf} {ctx wider : Context}
    {result : EStateM.Result GrammarError Cursor α} (settled : Settled size part ctx cursor result)
    (derives : ∀ tokens, Matches part tokens → Matches whole tokens)
    (narrows : ∀ front back, wider front back →
      (front ++ back).head? = cursor.ahead.head? → ctx front back)
    :
    Settled size whole wider cursor result where
  keeps := settled.keeps
  judged short := (settled.judged short).weaken derives narrows

/-- A run that stops at the next token. -/
theorem Settled.fail {ctx : Context} {fault : GrammarFault} (stops : fault.stops = true)
    (live : Live part)
    (excluded : ∀ front back, ctx front back → (front ++ back).head? ≠ cursor.ahead.head?) :
    Settled size part ctx cursor ((Rule.fail fault : Rule α) cursor) where
  keeps := prefix_append _ _
  judged _ := by
    refine .rejects [] cursor.ahead [] ⟨fault, cursor.peek⟩ rfl
      (prefix_refl _) harmless_nil stops rfl live
      fun front back other admitted split same => excluded front back admitted ?_
    rw [split]
    exact same

/-- A run goes on with or without the next token. -/
theorem Settled.takeIf {ctx : Context} {test : Token → Bool} {cont : Option Token → Rule β}
    (absent : isAhead test cursor.ahead = false → Settled size part ctx cursor (cont none cursor))
    (present : ∀ token rest, cursor.ahead = token :: rest → test token = true →
      Settled size part ctx cursor
        (cont (some token) { cursor with ahead := rest }))
    :
    Settled size part ctx cursor ((Rule.takeIf test >>= cont) cursor) := by
  rcases cursor with ⟨ahead, ending, nextId, errors⟩
  simp only [Bind.bind, EStateM.bind, Rule.takeIf]
  cases ahead with
  | nil => exact absent rfl
  | cons token rest =>
    cases passes : test token with
    | true =>
      simp only [passes, if_true]
      exact present token rest rfl passes
    | false =>
      simp only [passes, Bool.false_eq_true, if_false]
      exact absent passes

/-- Tokens of a part in front of others that meet a condition. -/
def Before (part : Ebnf) (follow : List Token → Prop) : Context :=
  fun front back => Matches part front ∧ follow back

/-- The rule decides a part in front of tokens that meet a condition. -/
abbrev Judges (size : Nat) (rule : Rule α) (part : Ebnf) (follow : List Token → Prop) : Prop :=
  Decides size rule part (Before part follow)

/-- Tokens of some parts in a row and then of a last one. -/
def Then (parts : List Ebnf) (last : Context) : Context :=
  fun front back => ∃ start rest, front = start ++ rest ∧
    Matches (.sequence parts) start ∧ last rest back

/-- The next token does not pass a test. -/
def Unseen (test : Token → Bool) (tokens : List Token) : Prop :=
  isAhead test tokens = false

/-- The next token passes a test. -/
def Seen (test : Token → Bool) (tokens : List Token) : Prop :=
  isAhead test tokens = true

/-- Any tokens. -/
def Anything (_ : List Token) : Prop :=
  True

theorem Settled.unstarted {follow : List Token → Prop} {fault : GrammarFault}
    (stops : fault.stops = true) (live : Live part) (taking : part.nullable = false)
    (unseen : isAhead part.starts cursor.ahead = false) :
    Settled size part (Before part follow) cursor ((Rule.fail fault : Rule α) cursor) := by
  refine .fail stops live ?_
  rintro front back ⟨derived, _⟩ same
  have starts := derived.isAhead_append taking back
  rw [isAhead_congr _ same] at starts
  exact absurd starts (Bool.eq_false_iff.mp unseen)

theorem Settled.unrepeated {follow : List Token → Prop} (value : α)
    (unseen : isAhead part.starts cursor.ahead = false) :
    Settled size (.repeated part) (Before (.repeated part) follow) cursor
      ((Pure.pure value : Rule α) cursor) := by
  refine ⟨prefix_refl _, fun _ => ?_⟩
  refine .empty value [] rfl rfl (append_nil _).symm harmless_nil .none ?_
  rintro (_ | ⟨token, front⟩) back ⟨derived, _⟩ same
  · rfl
  · have starts : part.starts token = true := derived.begins
    rw [← isAhead_congr _ same] at unseen
    exact absurd starts (Bool.eq_false_iff.mp unseen)

theorem matches_repeated_seen {token : Token} {front back : List Token}
    (derived : Matches (.repeated part) front) (unseen : Unseen part.starts back)
    (starts : part.starts token = true) (same : (front ++ back).head? = some token) :
    ∃ start rest, front = start ++ rest ∧ Matches part start ∧ Matches (.repeated part) rest := by
  rcases matches_repeated.mp derived with rfl | repeated
  · have seen : isAhead part.starts back = isAhead part.starts [token] :=
      isAhead_congr _ same
    rw [unseen] at seen
    exact absurd starts (Bool.eq_false_iff.mp seen.symm)
  · exact repeated

/-- No token is left, or the next one passes a test. -/
def Ends (test : Token → Bool) (tokens : List Token) : Prop :=
  tokens = [] ∨ isAhead test tokens = true

theorem ends_congr {test : Token → Bool} {tokens other : List Token}
    (same : tokens.head? = other.head?) : Ends test tokens ↔ Ends test other := by
  unfold Ends
  rw [isAhead_congr test same, ← head?_eq_none_iff, same, head?_eq_none_iff]

namespace Decides

variable {size smaller : Nat} {rule : Rule α} {cont : α → Rule β}
  {part other whole : Ebnf} {parts others : List Ebnf} {ctx wider first second last : Context}
  {follow further : List Token → Prop} {test : Token → Bool}

theorem shrink (decides : Decides size rule part ctx)
    (less : smaller ≤ size) : Decides smaller rule part ctx :=
  fun cursor => ⟨(decides cursor).keeps, fun short =>
    (decides cursor).judged (Nat.lt_of_lt_of_le short less)⟩

/-- A run after the next token has been taken. -/
theorem stepped {cursor : Cursor} {token : Token} {rest : List Token}
    (decides : Decides smaller rule part ctx)
    (less : size ≤ smaller + 1) (ahead : cursor.ahead = token :: rest)
    (derives : ∀ tokens, Matches part tokens → Matches whole (token :: tokens))
    (narrows : ∀ front back, wider front back → (front ++ back).head? = some token →
        ∃ tokens, front = token :: tokens ∧ ctx tokens back) :
    Settled size whole wider cursor (rule { cursor with ahead := rest }) where
  keeps := (decides { cursor with ahead := rest }).keeps
  judged short := by
    have shorter : rest.length < smaller := by
      rw [ahead, length_cons] at short
      omega
    exact ((decides { cursor with ahead := rest }).judged shorter).step ahead derives narrows

theorem weaken (decides : Decides size rule part ctx)
    (derives : ∀ tokens, Matches part tokens → Matches whole tokens)
    (narrows : ∀ front back, wider front back → ctx front back) :
    Decides size rule whole wider :=
  fun cursor => (decides cursor).weaken derives fun front back admitted _ =>
    narrows front back admitted

theorem produced {symbol : Symbol} (decides : Judges size rule (production symbol) follow) :
    Judges size rule (.symbol symbol) follow :=
  decides.weaken (fun _ => .symbol)
    fun _ _ ⟨derived, follows⟩ => ⟨matches_symbol.mp derived, follows⟩

/-- A rule that takes no token and notes no fatal fault. -/
theorem quiet (unmoved : ∀ cursor, ∃ value id noted, Harmless noted ∧ rule cursor = .ok value
        { cursor with nextId := id, errors := cursor.errors ++ noted }) :
    Judges size rule (.sequence []) follow := by
  intro cursor
  rcases unmoved cursor with ⟨value, id, noted, harmless, ran⟩
  rw [ran]
  refine ⟨prefix_append _ noted, fun _ => ?_⟩
  exact .empty value noted rfl rfl rfl harmless .done
    fun front back admitted _ => matches_nil.mp admitted.1

theorem pure (value : α) : Judges size (Pure.pure value : Rule α) (.sequence []) follow :=
  quiet fun cursor => ⟨value, cursor.nextId, [], harmless_nil, by simp [Pure.pure, EStateM.pure]⟩

theorem freshId : Judges size Rule.freshId (.sequence []) follow :=
  quiet fun cursor =>
    ⟨cursor.nextId, cursor.nextId + 1, [], harmless_nil, by
      simp [Rule.freshId]⟩

variable {fault : GrammarFault}

theorem noteAt (noted : fault.stops = false) (token : Token) :
    Judges size (Rule.noteAt fault token) (.sequence []) follow :=
  quiet fun cursor => ⟨(), cursor.nextId, [⟨fault, token⟩], harmless_singleton noted, rfl⟩

theorem noteHere (noted : fault.stops = false) :
    Judges size (Rule.noteHere fault) (.sequence []) follow :=
  quiet fun cursor => ⟨(), cursor.nextId, [⟨fault, cursor.peek⟩], harmless_singleton noted, rfl⟩

theorem keeps_bind (head : ∀ cursor, cursor.errors <+: reported (rule cursor))
    (tail : ∀ value cursor, cursor.errors <+: reported (cont value cursor))
    (cursor : Cursor) : cursor.errors <+: reported ((rule >>= cont) cursor) := by
  have kept := head cursor
  simp only [Bind.bind, EStateM.bind]
  cases ran : rule cursor with
  | ok value middle =>
    rw [ran] at kept
    exact kept.trans (tail value middle)
  | error error middle =>
    rw [ran] at kept
    exact kept

theorem bind (head : Decides size rule part first)
    (tail : ∀ value, Decides smaller (cont value) other second)
    (room : ∀ tokens, Matches part tokens → size ≤ smaller + tokens.length) (live : Live other)
    (joins : ∀ front back, Matches part front → Matches other back → Matches whole (front ++ back))
    (splits : ∀ front back, wider front back → ∃ start rest,
      front = start ++ rest ∧ first start (rest ++ back) ∧ second rest back) :
    Decides size (rule >>= cont) whole wider := by
  have keeps (value : α) (after : Cursor) := (tail value after).keeps
  intro cursor
  refine ⟨keeps_bind (fun cursor => (head cursor).keeps) keeps cursor, fun short => ?_⟩
  refine ((head cursor).judged short).bind ?_ keeps live joins splits
  intro value taken after derived ahead
  refine (tail value after).judged ?_
  have enough := room taken derived
  rw [ahead, length_append] at short
  omega

/-- A quiet rule in front changes nothing. -/
theorem afterQuiet (head : Judges size rule (.sequence []) Anything)
    (tail : ∀ value, Decides size (cont value) part ctx) (live : Live part) :
    Decides size (rule >>= cont) part ctx := by
  refine head.bind tail (fun _ _ => Nat.le_add_right _ _) live ?_ ?_
  · intro front back empty derived
    rw [matches_nil.mp empty]
    exact derived
  · intro front back admitted
    exact ⟨[], front, rfl, ⟨.done, trivial⟩, admitted⟩

theorem room_of_taking (taking : part.nullable = false)
    (less : size ≤ smaller + 1) (tokens : List Token)
    (derived : Matches part tokens) : size ≤ smaller + tokens.length := by
  have ahead := derived.isAhead taking
  cases tokens with
  | nil => cases ahead
  | cons token rest =>
    rw [length_cons]
    omega

theorem nextThen (head : Judges size rule part follow)
    (tail : ∀ value, Decides size (cont value) (.sequence others) (Then parts last))
    (live : Live (.sequence others))
    (follows : ∀ front back, Then parts last front back → follow (front ++ back)) :
    Decides size (rule >>= cont) (.sequence (part :: others)) (Then (part :: parts) last) := by
  refine head.bind tail (fun _ _ => Nat.le_add_right _ _) live (fun _ _ => .next) ?_
  rintro _ back ⟨start, rest, rfl, derived, admitted⟩
  rcases matches_cons.mp derived with ⟨front, middle, rfl, leading, derived⟩
  exact ⟨front, middle ++ rest, append_assoc .., ⟨leading,
    follows _ _ ⟨middle, rest, rfl, derived, admitted⟩⟩, middle, rest, rfl, derived, admitted⟩

theorem lastThen (decides : Decides size rule part last) :
    Decides size rule (.sequence [part]) (Then [] last) := by
  refine decides.weaken (fun _ => matches_singleton.mpr) ?_
  rintro _ back ⟨start, rest, rfl, empty, admitted⟩
  rw [matches_nil.mp empty]
  exact admitted

theorem appendThen (head : Judges size rule (.sequence parts) Anything)
    (tail : ∀ value, Decides size (cont value) (.sequence others) last)
    (live : Live (.sequence others)) :
    Decides size (rule >>= cont) (.sequence (parts ++ others)) (Then parts last) := by
  refine head.bind tail (fun _ _ => Nat.le_add_right _ _) live ?_ ?_
  · exact fun front back derived following =>
      (matches_append parts others).mpr ⟨front, back, rfl, derived, following⟩
  · rintro _ back ⟨start, rest, rfl, derived, admitted⟩
    exact ⟨start, rest, rfl, ⟨derived, trivial⟩, admitted⟩

theorem splits_next (follows : ∀ front back, Matches (.sequence parts) front →
      further back → follow (front ++ back)) (front back : List Token)
    (admitted : Before (.sequence (part :: parts)) further front back) :
    ∃ start rest, front = start ++ rest ∧ Before part follow start (rest ++ back) ∧
        Before (.sequence parts) further rest back := by
  rcases admitted with ⟨derived, admitted⟩
  rcases matches_cons.mp derived with ⟨start, rest, rfl, leading, derived⟩
  exact ⟨start, rest, rfl, ⟨leading, follows rest back derived admitted⟩, derived, admitted⟩

theorem next (head : Judges size rule part follow)
    (tail : ∀ value, Judges size (cont value) (.sequence parts) further)
    (live : Live (.sequence parts))
    (follows : ∀ front back, Matches (.sequence parts) front →
      further back → follow (front ++ back)) :
    Judges size (rule >>= cont) (.sequence (part :: parts)) further :=
  head.bind tail (fun _ _ => Nat.le_add_right _ _) live (fun _ _ => .next) (splits_next follows)

theorem nextTaking (head : Judges (size + 1) rule part follow)
    (tail : ∀ value, Judges size (cont value) (.sequence parts) further)
    (taking : part.nullable = false) (live : Live (.sequence parts))
    (follows : ∀ front back, Matches (.sequence parts) front →
      further back → follow (front ++ back)) :
    Judges (size + 1) (rule >>= cont) (.sequence (part :: parts)) further :=
  head.bind tail (room_of_taking taking (Nat.le_refl _)) live
    (fun _ _ => .next) (splits_next follows)

/-- A rule that goes on by whether the next token passes a test. -/
theorem takeThen {cont : Option Token → Rule β} (absent : Decides size (cont none) part first)
    (present : ∀ token, test token → Decides smaller (cont (some token)) other second)
    (less : size ≤ smaller + 1)
    (derivesAbsent : ∀ tokens, Matches part tokens → Matches whole tokens)
    (derivesPresent : ∀ token tokens, test token → Matches other tokens →
      Matches whole (token :: tokens))
    (narrowsAbsent : ∀ front back, wider front back →
      isAhead test (front ++ back) = false → first front back)
    (narrowsPresent : ∀ token front back, test token → wider front back →
      (front ++ back).head? = some token → ∃ tokens, front = token :: tokens ∧ second tokens back) :
    Decides size (takeIf test >>= cont) whole wider := by
  intro cursor
  refine .takeIf (fun unseen => ?_) fun token rest ahead passes => ?_
  · exact (absent cursor).weaken derivesAbsent fun front back admitted same =>
      narrowsAbsent front back admitted ((isAhead_congr test same).trans unseen)
  · exact (present token passes).stepped less ahead
      (derivesPresent token · passes) (narrowsPresent token · · passes)

/-- A rule that goes on by whether the next token is a given punctuator. -/
theorem seesThen {mark : Punctuator} {cont : Bool → Rule β}
    (present : Decides size (cont true) part first)
    (absent : Decides size (cont false) other second)
    (derivesPresent : ∀ tokens, Matches part tokens → Matches whole tokens)
    (derivesAbsent : ∀ tokens, Matches other tokens → Matches whole tokens)
    (narrowsPresent : ∀ front back, wider front back →
      isAhead (·.isMark mark) (front ++ back) = true → first front back)
    (narrowsAbsent : ∀ front back, wider front back →
      isAhead (·.isMark mark) (front ++ back) = false → second front back) :
    Decides size (Rule.sees mark >>= cont) whole wider := by
  intro cursor
  have seen : (Rule.sees mark >>= cont) cursor =
      cont (isAhead (·.isMark mark) cursor.ahead) cursor := by
    rw [← sees_eq_isAhead]
    rfl
  rw [seen]
  cases found : isAhead (·.isMark mark) cursor.ahead with
  | true =>
    exact (present cursor).weaken derivesPresent
      fun front back admitted same => narrowsPresent front back admitted
        ((isAhead_congr _ same).trans found)
  | false =>
    exact (absent cursor).weaken derivesAbsent
      fun front back admitted same => narrowsAbsent front back admitted
        ((isAhead_congr _ same).trans found)

theorem fail (stops : fault.stops = true) (live : Live part) :
    Decides size (Rule.fail fault : Rule α) part (fun _ _ => False) :=
  fun _ => .fail stops live fun _ _ impossible => impossible.elim

theorem expect (terminal : Terminal) (stops : fault.stops = true) :
    Judges size (Rule.expect terminal.test fault) (.terminal terminal) Anything := by
  refine takeThen (fail stops (.terminal terminal))
    (fun token _ => (pure token : Judges size _ _ Anything))
    (Nat.le_succ size) (fun _ => id) ?_ ?_ ?_
  · intro token tokens passes empty
    rw [matches_nil.mp empty]
    exact .terminal passes
  · rintro front back ⟨derived, _⟩ unseen
    rcases matches_terminal.mp derived with ⟨token, rfl, passes⟩
    exact absurd passes (Bool.eq_false_iff.mp unseen)
  · rintro token front back _ ⟨derived, _⟩ same
    rcases matches_terminal.mp derived with ⟨other, rfl, _⟩
    cases same
    exact ⟨[], rfl, .done, trivial⟩

theorem single (decides : Judges size rule part follow) :
    Judges size rule (.sequence [part]) follow :=
  decides.weaken (fun _ => matches_singleton.mpr)
    fun _ _ ⟨derived, follows⟩ => ⟨matches_singleton.mp derived, follows⟩

/-- Another round of a loop, whose first token has been taken. -/
theorem again {cursor : Cursor} {token : Token} {rest : List Token}
    {inner : Ebnf} (ahead : cursor.ahead = token :: rest)
    (less : size ≤ smaller + 1) (starts : part.starts token = true) (taking : part.nullable = false)
    (splits : ∀ tokens, Matches part (token :: tokens) ↔ Matches inner tokens)
    (head : Judges smaller rule inner follow)
    (tail : ∀ value, Judges smaller (cont value) (.repeated part)
      further) (unseen : ∀ back, further back → Unseen part.starts back)
    (follows : ∀ front back, Matches (.repeated part) front →
      further back → follow (front ++ back)) :
    Settled size (.repeated part) (Before (.repeated part) further) cursor
      ((rule >>= cont) { cursor with ahead := rest }) := by
  refine (head.next (fun value => (tail value).single)
    (.cons (.repeated _) .nil) fun front back more =>
      follows front back (matches_singleton.mp more)).stepped less ahead ?_ ?_
  · intro tokens derived
    rcases matches_cons.mp derived with ⟨front, back, rfl, first, more⟩
    exact .more ((splits front).mpr first) (matches_singleton.mp more)
  · rintro _ back ⟨derived, ends⟩ same
    rcases matches_repeated_seen derived (unseen back ends) starts same with
      ⟨start, others, rfl, first, more⟩
    rw [append_assoc] at same
    rcases first.exists_cons taking same with ⟨tokens, rfl⟩
    exact ⟨tokens ++ others, rfl,
      .next ((splits tokens).mp first) (matches_singleton.mpr more), ends⟩

/-- What is returned in the end does not matter. -/
theorem andReturn (decides : Decides size rule part ctx) (value : α → β) :
    Decides size (rule >>= fun result => Pure.pure (value result)) part ctx := by
  refine decides.bind (fun result => (pure (value result) : Judges size _ _ Anything))
    (fun _ _ => Nat.le_add_right _ _) .nil ?_ ?_
  · intro front back derived empty
    rw [matches_nil.mp empty, append_nil]
    exact derived
  · intro front back admitted
    exact ⟨front, [], (append_nil _).symm, admitted, .done, trivial⟩

theorem optional {terminal : Terminal} {cont : Option Token → Rule β}
    (absent : Judges size (cont none) (.sequence []) further)
    (present : ∀ token, Judges smaller (cont (some token))
      (.sequence parts) further) (less : size ≤ smaller + 1)
    (unseen : ∀ back, further back → Unseen terminal.test back) :
    Judges size (takeIf terminal.test >>= cont)
      (.optional (.sequence (.terminal terminal :: parts))) further := by
  refine takeThen absent (fun token _ => present token) less ?_ ?_ ?_ ?_
  · exact fun tokens empty => matches_optional.mpr (.inl (matches_nil.mp empty))
  · intro token tokens passes derived
    exact matches_optional.mpr (.inr
      (matches_terminal_cons.mpr ⟨token, tokens, rfl, passes, derived⟩))
  · rintro front back ⟨derived, follows⟩ refused
    rcases matches_optional.mp derived with rfl | derived
    · exact ⟨.done, follows⟩
    · rcases matches_terminal_cons.mp derived with ⟨token, _, rfl, passes, _⟩
      exact absurd passes (Bool.eq_false_iff.mp refused)
  · rintro token front back passes ⟨derived, follows⟩ same
    rcases matches_optional.mp derived with rfl | derived
    · have seen : isAhead terminal.test back = isAhead terminal.test [token] :=
        isAhead_congr _ same
      rw [unseen back follows] at seen
      exact absurd passes (Bool.eq_false_iff.mp seen.symm)
    · rcases matches_terminal_cons.mp derived with ⟨other, rest, rfl, _, tail⟩
      cases same
      exact ⟨rest, rfl, tail, follows⟩

theorem stopped_iff {stop : Cursor → Bool}
    (stops : ∀ cursor, stop cursor = isAhead test cursor.ahead) (cursor : Cursor) :
    (cursor.atEnd || stop cursor) = true ↔ Ends test cursor.ahead := by
  rw [stops, Bool.or_eq_true, Cursor.atEnd, List.isEmpty_iff]
  rfl

section

variable {stop : Cursor → Bool} {item : Rule α}
  (stops : ∀ cursor, stop cursor = isAhead test cursor.ahead) (taking : part.nullable = false)
  (apart : ∀ token, test token = true → part.starts token = false)
  (follows : ∀ front back, Matches (.repeated part) front → Ends test back → follow (front ++ back))
  (decides : Decides size item part (Before part follow))

include stops taking apart follows decides

/-- Items up to the end or to a token that does not start one. -/
theorem repeatUntil (rounds : Nat) (enough : size ≤ rounds + 1) :
    Judges size (Rule.repeatUntil stop item rounds) (.repeated part) (Ends test) := by
  have ended {room : Nat} {cursor : Cursor} (ends : Ends test cursor.ahead) :
      Settled room (.repeated part) (Before (.repeated part) (Ends test))
        cursor ((Pure.pure [] : Rule (List α)) cursor) := by
    refine .unrepeated [] ?_
    rcases ends with empty | seen
    · rw [empty]
      rfl
    · exact isAhead_excludes apart seen
  induction rounds generalizing size with
  | zero =>
    refine fun cursor => ⟨prefix_refl _, fun short => ?_⟩
    exact (ended (.inl (length_eq_zero_iff.mp (by omega)))).judged short
  | succ rounds ih =>
    -- If the loop goes on, the next token has to start an item.
    have more : Decides size (do
          let first ← item
          let others ← Rule.repeatUntil stop item rounds
          return first :: others)
        (.repeated part)
        (fun front back => ∃ start rest, front = start ++ rest ∧
          Before part follow start (rest ++ back) ∧
            Before (.repeated part) (Ends test) rest back) :=
      decides.bind (fun first => (ih (decides.shrink (Nat.sub_le size 1)) (by omega)).andReturn
            (first :: ·))
        (room_of_taking taking (by omega)) (.repeated part)
        (fun _ _ => .more) (fun _ _ admitted => admitted)
    intro cursor
    unfold Rule.repeatUntil
    split
    · exact ended ((stopped_iff stops cursor).mp ‹_›)
    · refine (more cursor).weaken (fun _ => id) ?_
      rintro front back ⟨derived, ends⟩ same
      rcases matches_repeated.mp derived with
        rfl | ⟨start, rest, rfl, head, tail⟩
      · exact absurd ((stopped_iff stops cursor).mpr ((ends_congr same).mp ends)) ‹_›
      · exact ⟨start, rest, rfl, ⟨head, follows rest back tail ends⟩, tail, ends⟩

/-- A loop without a fatal fault reads as far as it can. -/
theorem ends_of_repeatUntil (rounds : Nat) (enough : size ≤ rounds + 1)
    {cursor after : Cursor} {values : List α} {noted : List GrammarError}
    (short : cursor.ahead.length < size)
    (ran : Rule.repeatUntil stop item rounds cursor = .ok values after)
    (errors : after.errors = cursor.errors ++ noted)
    (harmless : Harmless noted) : Ends test after.ahead := by
  induction rounds generalizing size cursor values noted with
  | zero =>
    cases ran
    exact .inl (length_eq_zero_iff.mp (by omega))
  | succ rounds ih =>
    unfold Rule.repeatUntil at ran
    split at ran
    · cases ran
      exact (stopped_iff stops _).mp ‹_›
    · have judged := (decides cursor).judged short
      simp only [Bind.bind, EStateM.bind] at ran
      cases first : item cursor with
      | error error middle =>
        rw [first] at ran
        cases ran
      | ok value middle =>
        rw [first] at ran judged
        simp only at ran
        cases second : Rule.repeatUntil stop item rounds middle with
        | error error last =>
          rw [second] at ran
          cases ran
        | ok others last =>
          rw [second] at ran
          cases ran
          have smaller := decides.shrink (Nat.sub_le size 1)
          have kept := (repeatUntil stops taking apart follows smaller
            rounds (by omega) middle).keeps
          rw [second] at kept
          rcases judged.taken_of_harmless (errors ▸ kept) harmless with
            ⟨taken, further, derived, ahead, same, harmless⟩
          have room := room_of_taking taking (by omega : size ≤ size - 1 + 1) taken derived
          rw [ahead, length_append] at short
          exact ih smaller (by omega) (by omega) second (errors.trans same) harmless

end

theorem countedItem {overflow : GrammarFault} {item : Rule α}
    (noted : overflow.stops = false) (live : Live part)
    (decides : Decides size item part ctx) (count : Nat) :
    Decides size (Rule.countedItem overflow item count) part ctx := by
  unfold Rule.countedItem
  split
  · exact (noteHere noted).afterQuiet (fun _ => decides) live
  · exact decides

section

variable {overflow : GrammarFault} {item : Rule α}
  (noted : overflow.stops = false) (live : Live part) (taking : part.nullable = false)
  (follows : ∀ mark ∈ [Punctuator.comma, .rightParen], ∀ tokens,
    Seen (·.isMark mark) tokens → follow tokens)
  (decides : Decides size item part (Before part follow))

include noted live taking follows decides

theorem firstItem {cont : α → Rule β} (less : size ≤ smaller + 1)
    (tail : ∀ value, Judges smaller (cont value)
      (.optional (.sequence [.mark .comma, .listOf part]))
      (Seen fun token => token.isMark .rightParen)) (count : Nat) :
    Judges size (Rule.countedItem overflow item count >>= cont) (.listOf part)
      (Seen fun token => token.isMark .rightParen) := by
  refine (countedItem noted live decides count).bind tail
    (room_of_taking taking less) (.optional _) ?_ ?_
  · intro front back head tail
    exact matches_listOf.mpr (.next head (matches_singleton.mpr tail))
  · rintro _ back ⟨derived, closes⟩
    rcases matches_cons.mp (matches_listOf.mp derived) with ⟨front, rest, rfl, head, tail⟩
    have tail := matches_singleton.mp tail
    refine ⟨front, rest, rfl, ⟨head, ?_⟩, tail, closes⟩
    rcases matches_optional.mp tail with rfl | tail
    · exact follows .rightParen (by simp) back closes
    · rcases matches_terminal_cons.mp tail with ⟨comma, rest, rfl, isComma, _⟩
      exact follows .comma (by simp) _ isComma

/-- Items with commas in between, in front of a parenthesis. -/
theorem separated (rounds : Nat) (enough : size ≤ rounds + 1) (count : Nat) :
    Judges size (Rule.separated overflow item rounds count) (.listOf part)
      (Seen fun token => token.isMark .rightParen) := by
  induction rounds generalizing size count with
  | zero =>
    -- No token is left after an item.
    refine firstItem noted live taking follows decides enough ?_ count
    exact fun _ _ => ⟨prefix_refl _, nofun⟩
  | succ rounds ih =>
    refine firstItem noted live taking follows decides (by omega : size ≤ size - 1 + 1) ?_ count
    intro first
    have others := ih (decides.shrink (Nat.sub_le size 1)) (by omega) (count + 1)
    have unseen (back : List Token) (closes : Seen (·.isMark .rightParen) back) :
        Unseen (Terminal.mark .comma).test back :=
      isAhead_of_otherMark closes (by decide)
    exact optional (pure [first])
      (fun _ => others.single.andReturn (first :: ·)) (Nat.le_succ _) unseen

/-- The items between two parentheses. -/
theorem listed {limit : Nat} (enough : size ≤ limit + 1)
    (apart : ∀ token : Token, token.isMark .rightParen → part.starts token = false)
    {symbol : Symbol} (produces : production symbol = .listOf part) :
    Judges size (Rule.listed limit overflow item) (.optional (.symbol symbol))
      (Seen fun token => token.isMark .rightParen) := by
  have empty : Judges size (Pure.pure [] : Rule (List α)) (.sequence []) Anything := pure []
  have produced {tokens : List Token} :
      Matches (.symbol symbol) tokens ↔ Matches (.listOf part) tokens := by
    rw [matches_symbol, produces]
  refine seesThen empty (separated noted live taking follows decides limit enough 0) ?_ ?_ ?_ ?_
  · exact fun tokens empty => matches_optional.mpr (.inl (matches_nil.mp empty))
  · exact fun tokens derived => matches_optional.mpr (.inr (produced.mpr derived))
  · rintro front back ⟨derived, _⟩ seen
    refine ⟨matches_nil.mpr ?_, trivial⟩
    refine (matches_optional.mp derived).resolve_right fun derived => ?_
    have starts := (produced.mp derived).isAhead_append
      (by simp [Ebnf.listOf, Ebnf.nullable, Ebnf.nullableAll, taking]) back
    have unseen : isAhead (Ebnf.listOf part).starts (front ++ back) = false :=
      isAhead_excludes (fun token closes => by
        simp [Ebnf.listOf, Ebnf.starts, Ebnf.startsFirst, taking, apart token closes]) seen
    rw [unseen] at starts
    cases starts
  · rintro front back ⟨derived, closes⟩ unseen
    refine ⟨produced.mp ((matches_optional.mp derived).resolve_left ?_), closes⟩
    rintro rfl
    exact absurd closes (Bool.eq_false_iff.mp unseen)

end

end Decides

end Treewalk.Rule
