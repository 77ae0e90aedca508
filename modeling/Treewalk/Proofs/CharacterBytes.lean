import Treewalk.Proofs.Cutting

/-!
# The bytes of characters

A character below 0x80 is written as the one byte with its code; all bytes of
the others are 0x80 or more.  So a test that only characters of one byte pass
gives the same answer for a character and for each of its bytes.
-/

namespace Treewalk.Scan

open List

/-! ## Characters of one byte and of more -/

/-- The bytes that characters are written with. -/
def encode (characters : List Char) : List UInt8 :=
  characters.flatMap String.utf8EncodeChar

@[simp]
theorem encode_nil : encode [] = [] :=
  rfl

theorem encode_cons (char : Char) (text : List Char) :
    encode (char :: text) = String.utf8EncodeChar char ++ encode text :=
  flatMap_cons

theorem encode_append (text after : List Char) :
    encode (text ++ after) = encode text ++ encode after :=
  flatMap_append

/-- Each character takes a byte at least. -/
theorem length_le_encode (text : List Char) : text.length ≤ (encode text).length := by
  induction text with
  | nil => exact Nat.le_refl 0
  | cons char text ih =>
    have positive := char.utf8Size_pos
    rw [encode_cons, length_append, String.length_utf8EncodeChar, length_cons]
    omega

theorem toNat_letter (byte : UInt8) : (letter byte).toNat = byte.toNat :=
  UInt8.toNat_toUInt32 byte

theorem isContinuation_eq (byte : UInt8) :
    isContinuation byte = decide (0x80 ≤ byte.toNat ∧ byte.toNat < 0xC0) := by
  have all : ∀ value : Fin 256, isContinuation (UInt8.ofFin value) =
      decide (0x80 ≤ value.val ∧ value.val < 0xC0) := by decide +kernel
  exact all byte.toFin

theorem isContinuation_ofNat (value : Nat) :
    isContinuation (UInt8.ofNat (value % 0x40 + 0x80)) = true := by
  rw [isContinuation_eq, decide_eq_true_eq, UInt8.toNat_ofNat']
  omega

/-- A character is one byte, or a first byte with continuations. -/
theorem utf8EncodeChar_cases (char : Char) :
    (char.toNat < 0x80 ∧ ∃ byte, String.utf8EncodeChar char = [byte] ∧ letter byte = char) ∨
    (0x80 ≤ char.toNat ∧ ∃ byte more, String.utf8EncodeChar char = byte :: more ∧
        0xC0 ≤ byte.toNat ∧ ∀ other ∈ more, isContinuation other = true) := by
  have code : char.toNat = char.val.toNat := rfl
  unfold String.utf8EncodeChar
  rw [code]
  simp only
  split
  · left
    refine ⟨by omega, _, rfl, ?_⟩
    apply Char.toNat_inj.mp
    rw [toNat_letter, UInt8.toNat_ofNat']
    omega
  · right
    refine ⟨by omega, ?_⟩
    split <;> [skip; split] <;>
    · refine ⟨_, _, rfl, ?_, ?_⟩
      · rw [UInt8.toNat_ofNat']
        omega
      · simp only [forall_mem_cons, isContinuation_ofNat, true_and]
        exact nofun

/-- Continuations are what comes after the first byte of a character. -/
theorem utf8EncodeChar_eq_cons (char : Char) :
    ∃ byte more, String.utf8EncodeChar char = byte :: more ∧ isContinuation byte = false ∧
      ∀ other ∈ more, isContinuation other = true := by
  rcases utf8EncodeChar_cases char with
    ⟨short, byte, written, rfl⟩ | ⟨_, byte, more, written, start, others⟩
  · refine ⟨byte, [], written, ?_, nofun⟩
    rw [toNat_letter] at short
    rw [isContinuation_eq, decide_eq_false_iff_not]
    omega
  · refine ⟨byte, more, written, ?_, others⟩
    rw [isContinuation_eq, decide_eq_false_iff_not]
    omega

/-- No text starts inside a character. -/
theorem takeWhile_isContinuation (text : List Char) :
    (encode text).takeWhile isContinuation = [] := by
  cases text with
  | nil => rfl
  | cons char text =>
    rcases utf8EncodeChar_eq_cons char with ⟨byte, more, written, start, _⟩
    rw [encode_cons, written, cons_append, takeWhile_cons_of_neg (by simp [start])]

/-- No line ends inside a character. -/
theorem isContinuation_not_line {byte : UInt8}
    (continues : isContinuation byte = true) : letter byte ≠ '\n' := by
  rw [isContinuation_eq, decide_eq_true_eq, ← toNat_letter] at continues
  intro same
  rw [same] at continues
  exact absurd continues (by decide)

/-! ## Tests on characters -/

/-- A test says the same of a character and of each of its bytes. -/
def Bytewise (test : Char → Bool) : Prop :=
  ∀ character, ∀ byte ∈ String.utf8EncodeChar character, test (letter byte) = test character

/-- Tests that only characters of one byte pass. -/
theorem Bytewise.of_short {test : Char → Bool}
    (short : ∀ char, test char = true → char.toNat < 0x80) :
    Bytewise test := by
  have long (char : Char) (beyond : 0x80 ≤ char.toNat) : test char = false := by
    rw [Bool.eq_false_iff]
    intro passes
    have := short char passes
    omega
  intro char byte among
  rcases utf8EncodeChar_cases char with
    ⟨_, only, written, same⟩ | ⟨beyond, first, more, written, start, others⟩
  · rw [written, mem_singleton] at among
    rw [among, same]
  · rw [long char beyond]
    apply long
    rw [toNat_letter]
    rw [written, mem_cons] at among
    rcases among with rfl | among
    · omega
    · have continues := others byte among
      rw [isContinuation_eq, decide_eq_true_eq] at continues
      exact continues.1

theorem Bytewise.not {test : Char → Bool} (bytewise : Bytewise test) :
    Bytewise (fun char => !test char) := by
  intro char byte among
  simp only [bytewise char byte among]

theorem Bytewise.beq {mark : Char} (short : mark.toNat < 0x80) : Bytewise (· == mark) := by
  apply Bytewise.of_short
  intro char same
  rwa [beq_iff_eq.mp same]

/-- Such a test takes the bytes of the characters it takes. -/
theorem Bytewise.takeWhile {test : Char → Bool} (bytewise : Bytewise test) (text : List Char) :
    (encode text).takeWhile (fun byte => test (letter byte)) = encode (text.takeWhile test) := by
  induction text with
  | nil => rfl
  | cons char text ih =>
    have bytes := bytewise char
    rw [encode_cons]
    cases passes : test char with
    | true =>
      rw [takeWhile_append_of_pos (fun byte among => by
        rw [bytes byte among, passes]),
      ih, takeWhile_cons_of_pos passes,
      encode_cons]
    | false =>
      rw [takeWhile_cons_of_neg (by simp [passes]), encode_nil]
      cases written : String.utf8EncodeChar char with
      | nil => exact absurd written String.utf8EncodeChar_ne_nil
      | cons byte more =>
        have first := bytes byte (by simp [written])
        rw [cons_append, takeWhile_cons_of_neg]
        simp [first, passes]

variable {char : Char}

theorem short_of_isDigit (digit : char.isDigit = true) : char.toNat < 0x80 := by
  rw [Char.isDigit_iff_toNat] at digit
  exact Nat.lt_of_le_of_lt digit.2 (by decide)

theorem bytewise_isDigit : Bytewise Char.isDigit :=
  Bytewise.of_short fun _ => short_of_isDigit

theorem short_of_isAlpha (letter : char.isAlpha = true) : char.toNat < 0x80 := by
  rcases Bool.or_eq_true_iff.mp letter with upper | lower
  · have below := (of_decide_eq_true upper).2
    exact Nat.lt_of_le_of_lt (UInt32.le_iff_toNat_le.mp below) (by decide)
  · have below := of_decide_eq_true (Bool.and_eq_true_iff.mp lower).2
    exact Nat.lt_of_le_of_lt (UInt32.le_iff_toNat_le.mp below) (by decide)

theorem short_of_continuesName (continues : continuesName char = true) : char.toNat < 0x80 := by
  rw [continuesName, Char.isAlphanum, Bool.or_eq_true, Bool.or_eq_true, beq_iff_eq] at continues
  rcases continues with (letter | digit) | rfl
  · exact short_of_isAlpha letter
  · exact short_of_isDigit digit
  · decide

theorem bytewise_continuesName : Bytewise continuesName :=
  Bytewise.of_short fun _ => short_of_continuesName

theorem short_of_startsName (starts : startsName char = true) : char.toNat < 0x80 :=
  short_of_continuesName (startsName_continues starts)

theorem bytewise_startsName : Bytewise startsName :=
  Bytewise.of_short fun _ => short_of_startsName

/-- Characters that take more than one byte start nothing. -/
theorem nothing_of_long (long : 0x80 ≤ char.toNat) :
    isBlank char = false ∧ (char == '/') = false ∧
      (char == '"') = false ∧ char.isDigit = false ∧ startsName char = false ∧
      Punctuator.ofChar? char = none ∧ Punctuator.withEqual? char = none := by
  have other {mark : Char} (short : mark.toNat < 0x80) : (char == mark) = false := by
    rw [beq_eq_false_iff_ne]
    rintro rfl
    omega
  refine ⟨?_, other (by decide), other (by decide), ?_, ?_, ?_, ?_⟩
  · simp only [isBlank]
    rw [other (by decide), other (by decide), other (by decide), other (by decide)]
    rfl
  · rw [Bool.eq_false_iff]
    intro digit
    have := short_of_isDigit digit
    omega
  · rw [startsName, other (by decide), Bool.or_false, Bool.eq_false_iff]
    intro letter
    have := short_of_isAlpha letter
    omega
  · unfold Punctuator.ofChar?
    split <;> first | rfl | exact absurd long (by decide)
  · unfold Punctuator.withEqual?
    split <;> first | rfl | exact absurd long (by decide)

/-! ## Looking for a character -/

/-- Lines can be counted by their bytes. -/
theorem lineEnds_encode (text : List Char) : lineEnds (encode text) = newlines text := by
  induction text with
  | nil => rfl
  | cons char text ih =>
    have bytes := Bytewise.beq (show '\n'.toNat < 0x80 by decide) char
    unfold lineEnds newlines at ih ⊢
    rw [encode_cons, countP_append, ih, count_cons, Nat.add_comm]
    congr 1
    rcases utf8EncodeChar_cases char with ⟨_, byte, written, same⟩ | ⟨beyond, _⟩
    · simp [written, same, countP_cons]
    · have other : char ≠ '\n' := by
        rintro rfl
        exact absurd beyond (by decide)
      have unbroken : ∀ byte ∈ String.utf8EncodeChar char, ¬(letter byte == '\n') = true := by
        intro byte among
        have same : (letter byte == '\n') = (char == '\n') :=
          bytes byte among
        simpa [same] using other
      rw [countP_eq_zero.mpr unbroken]
      simp [other]

theorem findIdx?_getD_length (test : UInt8 → Bool) (bytes : List UInt8) :
    (bytes.findIdx? test).getD bytes.length = (bytes.takeWhile (!test ·)).length := by
  induction bytes with
  | nil => rfl
  | cons byte bytes ih =>
    cases passes : test byte with
    | true => simp [findIdx?_cons, passes]
    | false =>
      cases found : bytes.findIdx? test <;> simpa [findIdx?_cons, passes, found] using ih

/-- A pair is looked for behind bytes that cannot start it. -/
theorem findPair?_append {left right : Char} {bytes : List UInt8}
    (others : ∀ byte ∈ bytes, letter byte ≠ left) (rest : List UInt8) :
    findPair? left right (bytes ++ rest) = (findPair? left right rest).map (· + bytes.length) := by
  induction bytes with
  | nil => simp
  | cons byte bytes ih =>
    rw [forall_mem_cons] at others
    have run := ih others.2
    cases tail : bytes ++ rest with
    | nil =>
      rw [append_eq_nil_iff] at tail
      simp [tail, findPair?]
    | cons second more =>
      rw [tail] at run
      rw [cons_append, tail, findPair?]
      simp [others.1, run, Function.comp_def, Nat.add_assoc]

/-- A pair that is not at the front is found further on. -/
theorem findPair?_cons {text : List Char} (other : ∀ more, char = '*' → text ≠ '/' :: more) :
    findPair? '*' '/' (encode (char :: text)) = (findPair? '*' '/' (encode text)).map
        (· + (String.utf8EncodeChar char).length) := by
  rw [encode_cons]
  by_cases star : char = '*'
  · subst star
    cases text with
    | nil => rfl
    | cons next more =>
      have slash : next ≠ '/' := by
        rintro rfl
        exact other more rfl rfl
      have bytes := Bytewise.beq (show '/'.toNat < 0x80 by decide) next
      cases written : String.utf8EncodeChar next with
      | nil => exact absurd written String.utf8EncodeChar_ne_nil
      | cons byte others =>
        have first : (letter byte == '/') = (next == '/') :=
          bytes byte (by simp [written])
        rw [encode_cons, written]
        show findPair? '*' '/' (42 :: byte :: (others ++ encode more)) = _
        rw [findPair?]
        simp [first, slash]
        rfl
  · apply findPair?_append
    intro byte among same
    have bytes : (letter byte == '*') = (char == '*') :=
      Bytewise.beq (show '*'.toNat < 0x80 by decide) char byte among
    simp [same, star] at bytes

/-- The bytes show where a comment is closed first. -/
theorem findPair?_of_first {comment : List Char}
    (first : ¬ closing <:+: comment ++ ['*']) (rest : List Char) :
    findPair? '*' '/' (encode (comment ++ closing ++ rest)) = some (encode comment).length := by
  induction comment with
  | nil => rfl
  | cons char comment ih =>
    rw [cons_append, infix_cons_iff, not_or] at first
    rw [cons_append, cons_append, findPair?_cons,
      ih first.2, encode_cons, length_append, Nat.add_comm]
    · rfl
    · exact ne_slash_of_first first.1

/-- The bytes show that a comment is not closed. -/
theorem findPair?_of_open {text : List Char} (unclosed : ¬ closing <:+: text) :
    findPair? '*' '/' (encode text) = none := by
  induction text with
  | nil => rfl
  | cons char text ih =>
    rw [infix_cons_iff, not_or] at unclosed
    rw [findPair?_cons, ih unclosed.2]
    · rfl
    · rintro more rfl rfl
      exact unclosed.1 ⟨more, rfl⟩

end Treewalk.Scan
