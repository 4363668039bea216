import Spineless.Json.Token

/-!
# Tokens read back

The text of tokens is read as these tokens again (`Token.lex_text`). Only a number has no end of its
own: it ends where a character follows that cannot go on with it. `Token.Spaced` says that every number
in a list of tokens is followed by such a character, or by nothing.

A number is read in three parts, each up to the character that starts the next; a string is read
character by character, and no character is half of a surrogate pair.
-/

namespace Spineless.Json.Token

/-- A text that does not go on with a number. -/
def EndsNumber : List Char → Prop
  | [] => True
  | c :: _ => ¬ c.isDigit ∧ c ≠ '.' ∧ c ≠ 'e' ∧ c ≠ 'E'

/-- A text that does not go on with digits. -/
def EndsDigits : List Char → Prop
  | [] => True
  | c :: _ => ¬ c.isDigit

theorem EndsNumber.endsDigits {cs : List Char} (h : EndsNumber cs) : EndsDigits cs := by
  cases cs with
  | nil => trivial
  | cons c rest => exact h.1

/-! ## Digits -/

section Digits

variable {rest : List Char}

/-- The character of a digit stands for it. -/
theorem digit?_digitChar (d : Fin 10) : digit? (Nat.digitChar d.val) = some d := by
  revert d
  decide

/-- Digits are read up to the first character that is none. -/
theorem takeDigits_digitsText (digits : List (Fin 10)) (hrest : EndsDigits rest) :
    takeDigits (Numeral.digitsText digits ++ rest) = (digits, rest) := by
  induction digits with
  | nil =>
      cases rest with
      | nil => rfl
      | cons c rest =>
          have hc : digit? c = none := if_neg hrest
          simp [Numeral.digitsText, takeDigits, hc]
  | cons d digits ih =>
      have htail : Numeral.digitsText (d :: digits) ++ rest =
          Nat.digitChar d.val :: (Numeral.digitsText digits ++ rest) := rfl
      rw [htail, takeDigits, digit?_digitChar, ih]

/-- One more digit behind others. -/
theorem value_append (digits : List (Fin 10)) (d : Fin 10) :
    value (digits ++ [d]) = 10 * value digits + d.val := by
  simp [value, List.foldl_append]

/-- The decimal digits of a number, which do not start with a zero unless the number is zero. -/
theorem exists_digits (n : Nat) :
    ∃ digits, Nat.toDigits 10 n = Numeral.digitsText digits ∧ value digits = n ∧
      (n ≠ 0 → ∃ d more, digits = d :: more ∧ d ≠ 0) := by
  induction n using Nat.strongRecOn with
  | ind n ih =>
      by_cases hn : n < 10
      · refine ⟨[⟨n, hn⟩], ?_, ?_, fun hne => ⟨⟨n, hn⟩, [], rfl, ?_⟩⟩
        · rw [Nat.toDigits_of_lt_base hn]
          rfl
        · simp [value]
        · simpa [Fin.ext_iff] using hne
      · obtain ⟨digits, htext, hvalue, hhead⟩ := ih (n / 10) (by omega)
        obtain ⟨d, more, rfl, hd⟩ := hhead (by omega)
        have hmod : n % 10 < 10 := Nat.mod_lt n (by omega)
        refine ⟨d :: more ++ [⟨n % 10, hmod⟩], ?_, ?_, fun _ => ⟨d, _, rfl, hd⟩⟩
        · rw [Nat.toDigits_of_base_le (by omega) (by omega), htext]
          simp [Numeral.digitsText]
        · rw [value_append, hvalue]
          simp only
          omega

/-- The digits of a number start with a digit. -/
theorem exists_toDigits_eq_cons (n : Nat) :
    ∃ (d : Fin 10) (more : List Char), Nat.toDigits 10 n = Nat.digitChar d.val :: more := by
  obtain ⟨digits, htext, -⟩ := exists_digits n
  cases digits with
  | nil => exact absurd htext Nat.toDigits_ne_nil
  | cons d more => exact ⟨d, _, htext⟩

end Digits

/-! ## Numbers -/

/-- The text of the digits after the point. -/
def fractionText (fraction : List (Fin 10)) : List Char :=
  if fraction.isEmpty then [] else '.' :: Numeral.digitsText fraction

/-- The text of an exponent. -/
def exponentText : Option Int → List Char
  | none => []
  | some e => 'e' :: (toString e).toList

section Numbers

variable {rest : List Char}

/-- A numeral is written in four parts. -/
theorem numeral_text (n : Numeral) :
    n.text ++ rest = (if n.negative then ['-'] else []) ++
      (Nat.toDigits 10 n.whole ++ (fractionText n.fraction ++ (exponentText n.exponent ++ rest))) := by
  unfold Numeral.text fractionText exponentText
  cases n.exponent with
  | none => simp only [List.append_assoc]
  | some e => simp only [List.append_assoc]

/-- The digits before the point are read up to the first character that is none. -/
theorem takeWhole_toDigits (n : Nat) (hrest : EndsDigits rest) :
    takeWhole (Nat.toDigits 10 n ++ rest) = some (n, rest) := by
  by_cases hn : n = 0
  · subst hn
    rw [Nat.toDigits_zero]
    rfl
  · obtain ⟨digits, htext, hvalue, hhead⟩ := exists_digits n
    obtain ⟨d, more, rfl, hd⟩ := hhead hn
    have hnotZero : ∀ cs, Numeral.digitsText (d :: more) ++ rest = '0' :: cs → False := by
      intro cs hcs
      have hchar : Nat.digitChar d.val = '0' := (List.cons.inj hcs).1
      have hzero := digit?_digitChar d
      rw [hchar] at hzero
      exact hd (Option.some.inj hzero).symm
    rw [htext, takeWhole.eq_2 _ hnotZero, takeDigits_digitsText _ hrest]
    simp only [hvalue]

/-- A fraction is read up to the first character that is no digit. -/
theorem takeFraction_text (fraction : List (Fin 10)) (hrest : EndsDigits rest)
    (hpoint : ∀ cs, rest ≠ '.' :: cs) :
    takeFraction (fractionText fraction ++ rest) = some (fraction, rest) := by
  cases fraction with
  | nil => exact takeFraction.eq_2 rest hpoint
  | cons d more =>
      change takeFraction ('.' :: (Numeral.digitsText (d :: more) ++ rest)) = _
      rw [takeFraction, takeDigits_digitsText _ hrest]

/-- The text of an integer that is not negative. -/
theorem toList_toString_ofNat (n : Nat) : (toString (Int.ofNat n)).toList = Nat.toDigits 10 n := by
  change n.repr.toList = _
  rw [Nat.repr_eq_ofList_toDigits, String.toList_ofList]

/-- The text of a negative integer. -/
theorem toList_toString_negSucc (n : Nat) :
    (toString (Int.negSucc n)).toList = '-' :: Nat.toDigits 10 (n + 1) := by
  change ("-" ++ (n + 1).repr).toList = _
  rw [String.toList_append, Nat.repr_eq_ofList_toDigits, String.toList_ofList]
  simp

/-- An exponent is read with its sign. -/
theorem takeExponent_text (exponent : Option Int) (hrest : EndsNumber rest) :
    takeExponent (exponentText exponent ++ rest) = some (exponent, rest) := by
  cases exponent with
  | none =>
      cases rest with
      | nil => rfl
      | cons c rest => simp [exponentText, takeExponent, hrest.2.2.1, hrest.2.2.2]
  | some e =>
      change takeExponent ('e' :: ((toString e).toList ++ rest)) = _
      cases e with
      | ofNat n =>
          obtain ⟨digits, htext, hvalue, -⟩ := exists_digits n
          rw [toList_toString_ofNat, htext]
          cases digits with
          | nil => exact absurd htext Nat.toDigits_ne_nil
          | cons d more =>
              -- A digit is no sign.
              have hsign : ∀ c cs, Numeral.digitsText (d :: more) ++ rest = c :: cs → digit? c ≠ none := by
                intro c cs hcs
                rw [← (List.cons.inj hcs).1, digit?_digitChar]
                exact Option.some_ne_none d
              rw [takeExponent.eq_4 _ _ (fun cs hcs => hsign _ cs hcs rfl) (fun cs hcs => hsign _ cs hcs rfl),
                takeDigits_digitsText _ hrest.endsDigits]
              simp [hvalue]
      | negSucc n =>
          obtain ⟨digits, htext, hvalue, hhead⟩ := exists_digits (n + 1)
          obtain ⟨d, more, rfl, -⟩ := hhead (Nat.succ_ne_zero n)
          rw [toList_toString_negSucc, htext, List.cons_append, takeExponent.eq_2,
            takeDigits_digitsText _ hrest.endsDigits]
          simp [hvalue, Int.negSucc_eq]

/-- A number is read behind its sign. -/
theorem takeNumber_text (n : Numeral) (hrest : EndsNumber rest) :
    takeNumber n.negative (Nat.toDigits 10 n.whole ++
      (fractionText n.fraction ++ (exponentText n.exponent ++ rest))) = some (.number n, rest) := by
  have hexponent : EndsDigits (exponentText n.exponent ++ rest) := by
    cases n.exponent with
    | none => exact hrest.endsDigits
    | some e => exact fun h => (nomatch h)
  have hpoint : ∀ cs, exponentText n.exponent ++ rest ≠ '.' :: cs := by
    cases n.exponent with
    | none =>
        rintro cs rfl
        exact hrest.2.1 rfl
    | some e => exact fun cs hcs => absurd (List.cons.inj hcs).1 (by decide)
  have hfraction : EndsDigits (fractionText n.fraction ++ (exponentText n.exponent ++ rest)) := by
    cases n.fraction with
    | nil => exact hexponent
    | cons d more => exact fun h => (nomatch h)
  simp only [takeNumber, takeWhole_toDigits _ hfraction, Option.bind_eq_bind, Option.bind_some,
    takeFraction_text _ hexponent hpoint, takeExponent_text _ hrest]
  rfl

/-- A digit starts a number. -/
theorem take_digitChar (d : Fin 10) (cs : List Char) :
    take (Nat.digitChar d.val) cs = takeNumber Bool.false (Nat.digitChar d.val :: cs) := by
  match d with
  | 0 | 1 | 2 | 3 | 4 | 5 | 6 | 7 | 8 | 9 => rfl

/-- A number is read from its first character on. -/
theorem take_number (n : Numeral) (hrest : EndsNumber rest) :
    ∃ c cs, n.text ++ rest = c :: cs ∧ ¬ isSpace c ∧ take c cs = some (.number n, rest) := by
  have hnumber := takeNumber_text n hrest
  rw [numeral_text]
  cases hnegative : n.negative with
  | true =>
      rw [hnegative] at hnumber
      exact ⟨'-', _, rfl, by decide, hnumber⟩
  | false =>
      obtain ⟨d, more, hdigits⟩ := exists_toDigits_eq_cons n.whole
      have hspace : ∀ d : Fin 10, ¬ isSpace (Nat.digitChar d.val) := by decide
      rw [hnegative, hdigits] at hnumber
      rw [hdigits]
      refine ⟨Nat.digitChar d.val, _, rfl, hspace d, ?_⟩
      rw [take_digitChar]
      exact hnumber

end Numbers

/-! ## Strings -/

section Strings

variable {rest : List Char}

/-- A control character is escaped by four digits that denote it. -/
theorem exists_hexPadded {n : Nat} (hn : n < 0x20) :
    ∃ a b c d, (Text.hexPadded 4 n).toList = [a, b, c, d] ∧ hex4? a b c d = some n := by
  have hall : ∀ n : Fin 0x20, hex4? '0' '0' (Nat.digitChar (n / 16)) (Nat.digitChar (n % 16)) = some n.val ∧
      List.replicate (4 - (Nat.toDigits 16 n).length) '0' ++ Nat.toDigits 16 n =
        ['0', '0', Nat.digitChar (n / 16), Nat.digitChar (n % 16)] := by
    decide
  obtain ⟨hread, htext⟩ := hall ⟨n, hn⟩
  exact ⟨_, _, _, _, by rw [Text.hexPadded, String.toList_ofList]; exact htext, hread⟩

/-- A character of a string is read back from its escape. -/
theorem takeUnits_escape (c : Char) (cs : List Char) :
    takeUnits (escape c ++ cs) = (takeUnits cs).map fun (units, rest) => (c.toNat :: units, rest) := by
  fun_cases escape c with
  | case8 _ hcontrol =>
      obtain ⟨a, b, c', d, htext, hread⟩ := exists_hexPadded hcontrol
      rw [if_pos hcontrol, htext]
      simp only [List.cons_append, List.nil_append, takeUnits, hread]
      cases takeUnits cs <;> rfl
  | case9 _ hprintable hquote hbackslash =>
      rw [if_neg hprintable, List.singleton_append, takeUnits.eq_5 c cs hquote
        (fun _ _ _ _ _ h _ => hbackslash h) (fun _ _ h _ => hbackslash h),
        if_neg (not_or.2 ⟨hprintable, hbackslash⟩)]
      cases takeUnits cs <;> rfl
  | _ =>
      simp only [List.cons_append, List.nil_append]
      rw [takeUnits]
      · cases takeUnits cs <;> rfl
      all_goals exact fun _ _ _ _ _ h => absurd h (by decide)

/-- The characters of a string are read back up to the closing quote. -/
theorem takeUnits_flatMap_escape (cs : List Char) :
    takeUnits (cs.flatMap escape ++ '"' :: rest) = some (cs.map Char.toNat, rest) := by
  induction cs with
  | nil => rfl
  | cons c cs ih =>
      rw [List.flatMap_cons, List.append_assoc, takeUnits_escape, ih, Option.map_some, List.map_cons]

/-- A character is not half of a surrogate pair. -/
theorem not_surrogate (c : Char) : isHigh c.toNat = Bool.false ∧ isLow c.toNat = Bool.false := by
  have hvalid : c.toNat < 0xD800 ∨ 0xDFFF < c.toNat := c.valid.imp id And.left
  simp only [isHigh, isLow, Bool.and_eq_false_iff, decide_eq_false_iff_not]
  omega

/-- Characters are their own units. -/
theorem joinPairs?_toNat (cs : List Char) : joinPairs? (cs.map Char.toNat) = some cs := by
  induction cs with
  | nil => rfl
  | cons c cs ih =>
      obtain ⟨hhigh, hlow⟩ := not_surrogate c
      cases cs with
      | nil => simp [joinPairs?, hhigh, hlow, Char.ofNat_toNat]
      | cons c' cs =>
          rw [List.map_cons, List.map_cons] at *
          rw [joinPairs?, ih]
          simp [hhigh, hlow, Char.ofNat_toNat]

/-- A string is read behind its opening quote. -/
theorem takeString_text (s : Content) :
    ∃ cs, text (.string s) ++ rest = '"' :: cs ∧ takeString cs = some (.string s, rest) := by
  cases s with
  | none => exact ⟨_, rfl, rfl⟩
  | some s =>
      refine ⟨s.toList.flatMap escape ++ '"' :: rest, by simp [text], ?_⟩
      simp [takeString, takeUnits_flatMap_escape, joinPairs?_toNat]

end Strings

/-! ## Tokens -/

/-- Every number is followed by something that does not go on with it. -/
def Spaced : List Token → Prop
  | [] => True
  | token :: rest => (∀ n, token = .number n → EndsNumber (rest.flatMap text)) ∧ Spaced rest

/-- A token is read from its first character on. -/
theorem take_text {token : Token} {rest : List Char} (hrest : ∀ n, token = .number n → EndsNumber rest) :
    ∃ c cs, token.text ++ rest = c :: cs ∧ ¬ isSpace c ∧ take c cs = some (token, rest) := by
  cases token with
  | number n => exact take_number n (hrest n rfl)
  | string s =>
      obtain ⟨cs, htext, htake⟩ := takeString_text s
      exact ⟨'"', cs, htext, by decide, htake⟩
  | _ => exact ⟨_, _, rfl, by decide, rfl⟩

/-- A token has a text. -/
theorem length_text_pos (token : Token) : 0 < token.text.length := by
  have hread : ∃ c cs, token.text ++ [] = c :: cs ∧ ¬ isSpace c ∧ take c cs = some (token, []) :=
    take_text fun _ _ => trivial
  obtain ⟨c, cs, htext, -⟩ := hread
  rw [← List.append_nil token.text, htext]
  exact Nat.succ_pos _

/-- Tokens are read one after the other, if there is a step for each character. -/
theorem lexOnto_text {tokens : List Token} (hspaced : Spaced tokens) {fuel : Nat}
    (hfuel : (tokens.flatMap text).length ≤ fuel) (done : List Token) :
    lexOnto fuel done (tokens.flatMap text) = some (tokens.reverse ++ done) := by
  induction tokens generalizing fuel done with
  | nil => simp [lexOnto]
  | cons token tokens ih =>
      obtain ⟨hends, hspaced⟩ := hspaced
      obtain ⟨c, cs, htext, hspace, htake⟩ := take_text hends
      have hlength : token.text.length + (tokens.flatMap text).length = cs.length + 1 := by
        rw [← List.length_append, htext, List.length_cons]
      have hpos := length_text_pos token
      rw [List.flatMap_cons, htext] at hfuel ⊢
      rw [List.length_cons] at hfuel
      cases fuel with
      | zero => omega
      | succ fuel =>
          rw [lexOnto, if_neg hspace, htake]
          simp only
          rw [ih hspaced (by omega), List.reverse_cons, List.append_assoc]
          rfl

/-- The text of tokens is read as these tokens. -/
theorem lex_text {tokens : List Token} (hspaced : Spaced tokens) :
    lex (tokens.flatMap text) = some tokens := by
  rw [lex, lexOnto_text hspaced (Nat.le_refl _)]
  simp

end Spineless.Json.Token
