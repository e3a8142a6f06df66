import CallByValue.Proofs.JsonLexemes

/-!
# Data are read as they are written

The text of a datum is cut into the tokens it was made of, and these lead the
reader from waiting for a value to that value, if it may nest so deep.
-/

namespace CallByValue

open JsonToken (Located Lexes)
open JsonToken.Numeral (Ends)

namespace Json

mutual

/-- The datum is made of arrays, nulls and atoms that can be read back. -/
def Listed : Json → Prop
  | .null => True
  | .atom a => a.Readable
  | .array items => AllListed items
  | .object _ => False

def AllListed : List Json → Prop
  | [] => True
  | item :: items => Listed item ∧ AllListed items

end

mutual

/-- The tokens of a datum without objects. -/
def tokens : Json → List JsonToken
  | .null => [.scalar .null]
  | .atom a => [.ofAtom a]
  | .array [] => [.leftBracket, .rightBracket]
  | .array (item :: items) => .leftBracket :: (tokens item ++ closing items)
  | .object _ => []

/-- The tokens behind an item, with those of the items that follow it. -/
def closing : List Json → List JsonToken
  | [] => [.rightBracket]
  | item :: items => .comma :: (tokens item ++ closing items)

end

/-- The text behind an item, with that of the items that follow it. -/
def closingText (items : List Json) : Text := (texts items).flatMap (lit ", " ++ ·) ++ lit "]"

theorem closingText_cons (item : Json) (items : List Json) :
    closingText (item :: items) = lit "," ++ (lit " " ++ (item.text ++ closingText items)) := by
  simp [closingText, texts, lit]

theorem listed_cons (part : Text) (rest : List Text) :
    Text.listed (part :: rest) = part ++ rest.flatMap (lit ", " ++ ·) := by
  induction rest generalizing part with
  | nil => simp [Text.listed]
  | cons next rest ih => rw [listed_cons_cons, ih, List.flatMap_cons, List.append_assoc]

theorem text_array_cons (item : Json) (items : List Json) :
    (Json.array (item :: items)).text = lit "[" ++ (item.text ++ closingText items) := by
  rw [text, texts, listed_cons, closingText]
  simp only [List.append_assoc]

end Json

/-! ## Cutting -/

/-- In front of `rest` the text is cut into the tokens. -/
def Cuts (t rest : Text) (tokens : List JsonToken) : Prop :=
  ∀ seen position, ∃ located : List Located, located.map (·.token) = tokens ∧
    JsonToken.scan seen position 0 (t ++ rest) =
      JsonToken.scan (located.reverse ++ seen) (position + t.length) 0 rest

namespace Cuts

theorem append {t u rest : Text} {first second : List JsonToken} (here : Cuts t (u ++ rest) first)
    (there : Cuts u rest second) : Cuts (t ++ u) rest (first ++ second) := by
  intro seen position
  obtain ⟨a, firstTokens, firstCut⟩ := here seen position
  obtain ⟨b, secondTokens, secondCut⟩ := there (a.reverse ++ seen) (position + t.length)
  refine ⟨a ++ b, by rw [List.map_append, firstTokens, secondTokens], ?_⟩
  rw [List.append_assoc, firstCut, secondCut, List.reverse_append, List.append_assoc, List.length_append,
    Nat.add_assoc]

theorem token {t rest : Text} {token : JsonToken} (lexes : Lexes t rest token) : Cuts t rest [token] := by
  intro seen position
  exact ⟨[⟨token, position⟩], rfl, lexes.scan seen position⟩

theorem blank (rest : Text) : Cuts (lit " ") rest [] := fun _ _ => ⟨[], rfl, rfl⟩

theorem cons {t u rest : Text} {token : JsonToken} {tokens : List JsonToken} (lexes : Lexes t (u ++ rest) token)
    (there : Cuts u rest tokens) : Cuts (t ++ u) rest (token :: tokens) :=
  (Cuts.token lexes).append there

end Cuts

theorem ends_closingText (items : List Json) (rest : Text) : Ends (Json.closingText items ++ rest) := by
  intro c head
  cases items with
  | nil =>
    cases head
    decide
  | cons item items =>
    rw [Json.closingText_cons] at head
    cases head
    decide

mutual

theorem cuts_text : ∀ {d : Json}, d.Listed → ∀ {rest : Text}, Ends rest → Cuts d.text rest d.tokens
  | .null, _, rest, _ => Cuts.token (JsonToken.lexes_null rest)
  | .atom a, readable, rest, ends => Cuts.token (JsonToken.lexes_atom readable ends)
  | .array [], _, rest, _ =>
    Cuts.cons (JsonToken.lexes_leftBracket _) (Cuts.token (JsonToken.lexes_rightBracket rest))
  | .array (item :: items), listed, rest, ends => by
    obtain ⟨first, others⟩ := listed
    rw [Json.text_array_cons, Json.tokens]
    exact Cuts.cons (JsonToken.lexes_leftBracket _)
      ((cuts_text first (ends_closingText items rest)).append (cuts_closingText others rest))
  | .object _, listed, _, _ => listed.elim

theorem cuts_closingText : ∀ {items : List Json}, Json.AllListed items → ∀ rest : Text,
    Cuts (Json.closingText items) rest (Json.closing items)
  | [], _, rest => Cuts.token (JsonToken.lexes_rightBracket rest)
  | item :: items, listed, rest => by
    obtain ⟨first, others⟩ := listed
    rw [Json.closingText_cons, Json.closing]
    exact Cuts.cons (JsonToken.lexes_comma _) ((Cuts.blank _).append
      ((cuts_text first (ends_closingText items rest)).append (cuts_closingText others rest)))

end

/-! ## Reading -/

namespace JsonReader

theorem run_append (limit : Nat) (state : State) (first rest : List Located) :
    state.run limit (first ++ rest) = (state.run limit first >>= fun state => state.run limit rest) := by
  induction first generalizing state with
  | nil => rfl
  | cons located first ih =>
    rw [List.cons_append, State.run, State.run]
    cases state.next limit located.position located.token with
    | error e => rfl
    | ok state => exact ih state

theorem next_atom (limit position : Nat) (stack : List Open) (closes : Bool) (a : Atom) :
    State.next ⟨stack, .value closes⟩ limit position (.ofAtom a) = .ok ⟨stack, .separator (.atom a)⟩ := by
  cases a <;> rfl

/-- The state, if no more brackets are open on the way to it than may be. -/
def within (limit open' : Nat) (state : State) : Except ReadError State :=
  if open' ≤ limit then .ok state else .error .tooDeep

theorem within_bind {limit first rest : Nat} {state result : State} {next : State → Except ReadError State}
    (leads : next state = within limit rest result) :
    (within limit first state >>= next) = within limit (max first rest) result := by
  by_cases fits : first ≤ limit
  · by_cases more : rest ≤ limit
    · rw [within, if_pos fits, within, if_pos (max_le fits more)]
      rwa [within, if_pos more] at leads
    · have deep : ¬ max first rest ≤ limit := fun both => more (le_of_max_le_right both)
      rw [within, if_pos fits, within, if_neg deep]
      rwa [within, if_neg more] at leads
  · have deep : ¬ max first rest ≤ limit := fun both => fits (le_of_max_le_left both)
    rw [within, if_neg fits, within, if_neg deep]
    rfl

mutual

/-- The tokens of a datum are read as the datum, unless it nests too deep for where it stands. -/
theorem run_tokens : ∀ {d : Json}, d.Listed → ∀ {located : List Located}, located.map (·.token) = d.tokens →
    ∀ limit stack closes, stack.length ≤ limit → State.run limit ⟨stack, .value closes⟩ located =
      within limit (d.nesting + stack.length) ⟨stack, .separator d⟩
  | .null, _, located, spelled, limit, stack, closes, room => by
    obtain ⟨⟨token, position⟩, rfl, rfl⟩ := List.map_eq_singleton_iff.mp spelled
    rw [Json.nesting, Nat.zero_add, within, if_pos room]
    rfl
  | .atom a, _, located, spelled, limit, stack, closes, room => by
    obtain ⟨⟨token, position⟩, rfl, cut⟩ := List.map_eq_singleton_iff.mp spelled
    have atom : token = .ofAtom a := cut
    rw [Json.nesting, Nat.zero_add, within, if_pos room, State.run]
    dsimp only
    rw [atom, next_atom]
    rfl
  | .array [], _, located, spelled, limit, stack, closes, _ => by
    obtain ⟨⟨opening, position⟩, others, rfl, rfl, rest⟩ := List.map_eq_cons_iff.mp spelled
    obtain ⟨⟨closing, behind⟩, rfl, rfl⟩ := List.map_eq_singleton_iff.mp rest
    rw [Json.nesting, Json.nestingOfItems, State.run]
    simp only [State.next, State.deeper]
    by_cases full : limit ≤ stack.length
    · rw [if_pos full, within, if_neg (by omega)]
    · rw [if_neg full, within, if_pos (by omega)]
      rfl
  | .array (item :: items), listed, located, spelled, limit, stack, closes, _ => by
    obtain ⟨first, others⟩ := listed
    obtain ⟨⟨opening, position⟩, rest, rfl, rfl, tail⟩ := List.map_eq_cons_iff.mp spelled
    obtain ⟨here, there, rfl, hereSpelled, thereSpelled⟩ := List.map_eq_append_iff.mp tail
    have depth : (Json.array (item :: items)).nesting + stack.length =
        max (item.nesting + (stack.length + 1)) (Json.nestingOfItems items + (stack.length + 1)) := by
      rw [Json.nesting, Json.nestingOfItems]
      omega
    rw [depth, State.run]
    simp only [State.next, State.deeper]
    by_cases full : limit ≤ stack.length
    · rw [if_pos full, within, if_neg (by omega)]
    have room : stack.length + 1 ≤ limit := by omega
    have itemRead := run_tokens first hereSpelled limit (.array [] :: stack) true room
    rw [if_neg full]
    dsimp only
    rw [run_append, itemRead]
    exact within_bind (run_closing others thereSpelled limit stack [] item room)
  | .object _, listed, _, _, _, _, _, _ => listed.elim

theorem run_closing : ∀ {items : List Json}, Json.AllListed items → ∀ {located : List Located},
    located.map (·.token) = Json.closing items → ∀ limit stack before latest, stack.length + 1 ≤ limit →
      State.run limit ⟨.array before :: stack, .separator latest⟩ located =
        within limit (Json.nestingOfItems items + (stack.length + 1))
          ⟨stack, .separator (.array (before.reverse ++ latest :: items))⟩
  | [], _, located, spelled, limit, stack, before, latest, room => by
    obtain ⟨⟨closing, position⟩, rfl, rfl⟩ := List.map_eq_singleton_iff.mp spelled
    rw [Json.nestingOfItems, Nat.zero_add, within, if_pos room, State.run]
    simp only [State.next, List.reverse_cons]
    rfl
  | item :: items, listed, located, spelled, limit, stack, before, latest, room => by
    obtain ⟨first, others⟩ := listed
    obtain ⟨⟨separator, position⟩, rest, rfl, rfl, tail⟩ := List.map_eq_cons_iff.mp spelled
    obtain ⟨here, there, rfl, hereSpelled, thereSpelled⟩ := List.map_eq_append_iff.mp tail
    have depth : Json.nestingOfItems (item :: items) + (stack.length + 1) =
        max (item.nesting + (stack.length + 1)) (Json.nestingOfItems items + (stack.length + 1)) := by
      rw [Json.nestingOfItems]
      omega
    have itemRead := run_tokens first hereSpelled limit (.array (latest :: before) :: stack) false room
    have itemsRead := run_closing others thereSpelled limit stack (latest :: before) item room
    rw [List.reverse_cons, List.append_assoc] at itemsRead
    rw [depth, State.run]
    simp only [State.next]
    rw [run_append, itemRead]
    exact within_bind itemsRead

end

end JsonReader

/-- A datum is read from its text, if it may nest so deep. -/
theorem Json.read_text {d : Json} (listed : d.Listed) (limit : Nat) :
    Json.read limit d.text = if d.nesting ≤ limit then .ok d else .error .tooDeep := by
  have noMark : d.text.head? ≠ some (CodePoint.ofNat 0xFEFF) := by
    intro head
    have ascii := isAscii_text d _ (List.mem_of_mem_head? head)
    revert ascii
    decide
  have ends : Ends [] := nofun
  obtain ⟨located, spelled, cut⟩ := cuts_text listed ends [] 0
  rw [List.append_nil, List.append_nil] at cut
  have tokens : (JsonToken.ofText d.text).tokens = located := by
    rw [JsonToken.ofText, cut, JsonToken.scan, List.reverse_reverse]
  have ending : (JsonToken.ofText d.text).ending = .finish := by
    rw [JsonToken.ofText, cut, JsonToken.scan]
  have run := JsonReader.run_tokens listed spelled limit [] false (Nat.zero_le limit)
  rw [Json.read, if_neg noMark]
  dsimp only
  rw [tokens, ending, JsonReader.start, run, JsonReader.within, List.length_nil, Nat.add_zero]
  by_cases fits : d.nesting ≤ limit
  · rw [if_pos fits, if_pos fits]
    rfl
  · rw [if_neg fits, if_neg fits]

end CallByValue
