import Spineless.Json.Value
import Spineless.Proofs.Json.Lexing

/-!
# Values read back

The text of a value is read as that value (`Value.parse?_render`), whatever it holds: members in any
order, repeated keys, numbers in any notation. The tokens of a value take the reader from expecting a
value to having read it, with the containers around it untouched (`Value.feed_tokensOnto`); that is
proved with the tokens of items and members, by recursion on the value.
-/

namespace Spineless.Json.Value

/-! ## The tokens of a value -/

open Token (EndsNumber Spaced)

/-- Commas and closing brackets do not go on with a number. -/
theorem endsNumber_cons {token : Token} (rest : List Token)
    (htoken : token = .comma ∨ token = .closeBracket ∨ token = .closeBrace) :
    EndsNumber ((token :: rest).flatMap Token.text) := by
  rcases htoken with rfl | rfl | rfl
  all_goals exact ⟨by decide, by decide, by decide, by decide⟩

/-- Further items start with a comma. -/
theorem endsNumber_itemTokensOnto (items : List Value) {rest : List Token}
    (hrest : EndsNumber (rest.flatMap Token.text)) :
    EndsNumber ((itemTokensOnto items rest).flatMap Token.text) := by
  cases items with
  | nil => exact hrest
  | cons item items => exact endsNumber_cons _ (.inl rfl)

/-- Further members start with a comma. -/
theorem endsNumber_memberTokensOnto (members : List (Content × Value)) {rest : List Token}
    (hrest : EndsNumber (rest.flatMap Token.text)) :
    EndsNumber ((memberTokensOnto members rest).flatMap Token.text) := by
  cases members with
  | nil => exact hrest
  | cons m members => exact endsNumber_cons _ (.inl rfl)

/-- A token that is no number needs nothing behind it. -/
theorem spaced_cons {token : Token} {rest : List Token} (htoken : ∀ n, token ≠ .number n)
    (hrest : Spaced rest) : Spaced (token :: rest) :=
  ⟨fun n hn => absurd hn (htoken n), hrest⟩

mutual

/-- The numbers of a value are followed by what does not go on with them. -/
theorem spaced_tokensOnto : ∀ (v : Value) {rest : List Token}, EndsNumber (rest.flatMap Token.text) →
    Spaced rest → Spaced (v.tokensOnto rest)
  | .null, _, _, hrest => spaced_cons (by simp) hrest
  | .bool b, _, _, hrest => spaced_cons (by cases b <;> simp) hrest
  | .number n, _, hends, hrest => ⟨fun _ _ => hends, hrest⟩
  | .string s, _, _, hrest => spaced_cons (by simp) hrest
  | .array [], _, _, hrest => spaced_cons (by simp) (spaced_cons (by simp) hrest)
  | .array (item :: items), rest, _, hrest =>
    have hclose := endsNumber_cons rest (.inr (.inl rfl))
    spaced_cons (by simp) (spaced_tokensOnto item (endsNumber_itemTokensOnto items hclose)
      (spaced_itemTokensOnto items hclose (spaced_cons (by simp) hrest)))
  | .object [], _, _, hrest => spaced_cons (by simp) (spaced_cons (by simp) hrest)
  | .object ((key, v) :: members), rest, _, hrest =>
    have hclose := endsNumber_cons rest (.inr (.inr rfl))
    spaced_cons (by simp) (spaced_cons (by simp) (spaced_cons (by simp)
      (spaced_tokensOnto v (endsNumber_memberTokensOnto members hclose)
        (spaced_memberTokensOnto members hclose (spaced_cons (by simp) hrest)))))

/-- The numbers of further items are followed by what does not go on with them. -/
theorem spaced_itemTokensOnto : ∀ (items : List Value) {rest : List Token},
    EndsNumber (rest.flatMap Token.text) → Spaced rest → Spaced (itemTokensOnto items rest)
  | [], _, _, hrest => hrest
  | item :: items, _, hends, hrest =>
    spaced_cons (by simp) (spaced_tokensOnto item (endsNumber_itemTokensOnto items hends)
      (spaced_itemTokensOnto items hends hrest))

/-- The numbers of further members are followed by what does not go on with them. -/
theorem spaced_memberTokensOnto : ∀ (members : List (Content × Value)) {rest : List Token},
    EndsNumber (rest.flatMap Token.text) → Spaced rest → Spaced (memberTokensOnto members rest)
  | [], _, _, hrest => hrest
  | (key, v) :: members, _, hends, hrest =>
    spaced_cons (by simp) (spaced_cons (by simp) (spaced_cons (by simp)
      (spaced_tokensOnto v (endsNumber_memberTokensOnto members hends)
        (spaced_memberTokensOnto members hends hrest))))

end

/-! ## The reader -/

/-- The first token of a value does not close an array, so the first item is read like any value. -/
theorem foldlM_feed_firstItem (v : Value) (opens : List Open) (rest : List Token) :
    (v.tokensOnto rest).foldlM feed (.firstItem opens) =
      (v.tokensOnto rest).foldlM feed (.value (.array [] :: opens)) := by
  cases v with
  | null | number | string => rfl
  | bool b => cases b <;> rfl
  | array items => cases items <;> rfl
  | object members => cases members <;> rfl

mutual

/-- The tokens of a value are read as the value. -/
theorem feed_tokensOnto : ∀ (v : Value) (opens : List Open) (rest : List Token),
    (v.tokensOnto rest).foldlM feed (.value opens) = rest.foldlM feed (.after v opens)
  | .null, _, _ => rfl
  | .bool b, _, _ => by cases b <;> rfl
  | .number _, _, _ => rfl
  | .string _, _, _ => rfl
  | .array [], _, _ => rfl
  | .array (item :: items), opens, rest => by
    have hfirst := foldlM_feed_firstItem item opens (itemTokensOnto items (.closeBracket :: rest))
    calc ((Value.array (item :: items)).tokensOnto rest).foldlM feed (.value opens)
        = (item.tokensOnto (itemTokensOnto items (.closeBracket :: rest))).foldlM feed
            (.firstItem opens) := rfl
      _ = (itemTokensOnto items (.closeBracket :: rest)).foldlM feed
            (.after item (.array [] :: opens)) := by rw [hfirst, feed_tokensOnto item]
      _ = rest.foldlM feed (.after (.array (item :: items)) opens) :=
          feed_itemTokensOnto items item [] opens rest
  | .object [], _, _ => rfl
  | .object ((key, v) :: members), opens, rest => by
    calc ((Value.object ((key, v) :: members)).tokensOnto rest).foldlM feed (.value opens)
        = (v.tokensOnto (memberTokensOnto members (.closeBrace :: rest))).foldlM feed
            (.value (.object [] key :: opens)) := rfl
      _ = (memberTokensOnto members (.closeBrace :: rest)).foldlM feed
            (.after v (.object [] key :: opens)) := feed_tokensOnto v _ _
      _ = rest.foldlM feed (.after (.object ((key, v) :: members)) opens) :=
          feed_memberTokensOnto members v key [] opens rest

/-- Further items are read behind those that an array holds. -/
theorem feed_itemTokensOnto : ∀ (items : List Value) (last : Value) (before : List Value)
    (opens : List Open) (rest : List Token),
    (itemTokensOnto items (.closeBracket :: rest)).foldlM feed (.after last (.array before :: opens)) =
      rest.foldlM feed (.after (.array (before.reverse ++ last :: items)) opens)
  | [], last, before, opens, rest => by
    calc ((Token.closeBracket :: rest).foldlM feed (.after last (.array before :: opens)))
        = rest.foldlM feed (.after (.array (last :: before).reverse) opens) := rfl
      _ = rest.foldlM feed (.after (.array (before.reverse ++ [last])) opens) := by
          rw [List.reverse_cons]
  | item :: items, last, before, opens, rest => by
    calc (itemTokensOnto (item :: items) (.closeBracket :: rest)).foldlM feed
          (.after last (.array before :: opens))
        = (item.tokensOnto (itemTokensOnto items (.closeBracket :: rest))).foldlM feed
            (.value (.array (last :: before) :: opens)) := rfl
      _ = rest.foldlM feed (.after (.array ((last :: before).reverse ++ item :: items)) opens) := by
          rw [feed_tokensOnto item, feed_itemTokensOnto items]
      _ = rest.foldlM feed (.after (.array (before.reverse ++ last :: item :: items)) opens) := by
          rw [List.reverse_cons, List.append_assoc, List.singleton_append]

/-- Further members are read behind those that an object holds. -/
theorem feed_memberTokensOnto : ∀ (members : List (Content × Value)) (last : Value) (key : Content)
    (before : List (Content × Value)) (opens : List Open) (rest : List Token),
    (memberTokensOnto members (.closeBrace :: rest)).foldlM feed
        (.after last (.object before key :: opens)) =
      rest.foldlM feed (.after (.object (before.reverse ++ (key, last) :: members)) opens)
  | [], last, key, before, opens, rest => by
    calc ((Token.closeBrace :: rest).foldlM feed (.after last (.object before key :: opens)))
        = rest.foldlM feed (.after (.object ((key, last) :: before).reverse) opens) := rfl
      _ = rest.foldlM feed (.after (.object (before.reverse ++ [(key, last)])) opens) := by
          rw [List.reverse_cons]
  | (key', v) :: members, last, key, before, opens, rest => by
    calc (memberTokensOnto ((key', v) :: members) (.closeBrace :: rest)).foldlM feed
          (.after last (.object before key :: opens))
        = (v.tokensOnto (memberTokensOnto members (.closeBrace :: rest))).foldlM feed
            (.value (.object ((key, last) :: before) key' :: opens)) := rfl
      _ = rest.foldlM feed
            (.after (.object (((key, last) :: before).reverse ++ (key', v) :: members)) opens) := by
          rw [feed_tokensOnto v, feed_memberTokensOnto members]
      _ = rest.foldlM feed
            (.after (.object (before.reverse ++ (key, last) :: (key', v) :: members)) opens) := by
          rw [List.reverse_cons, List.append_assoc, List.singleton_append]

end

/-- The tokens of a value denote it. -/
theorem ofTokens?_tokens (v : Value) : ofTokens? v.tokens = some v := by
  unfold ofTokens? tokens
  rw [feed_tokensOnto]
  rfl

/-- The text of a value denotes it. -/
theorem parse?_render (v : Value) : parse? v.render = some v := by
  have hspaced : Spaced v.tokens := spaced_tokensOnto v trivial trivial
  unfold parse? render
  rw [String.toList_ofList, Token.lex_text hspaced]
  exact ofTokens?_tokens v

end Spineless.Json.Value
