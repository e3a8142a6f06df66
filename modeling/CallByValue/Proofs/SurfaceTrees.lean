import CallByValue.Proofs.JsonStrings
import CallByValue.Surface

/-!
# The trees of the surface notation

What is written is a word, a string in quotes, or some trees in parentheses. A
tree is known from its text, whatever follows it there: where a word ends is told
by the blank or the parenthesis behind it, where a string ends by its last quote.
-/

namespace CallByValue

/-- What ends a word: a blank, a parenthesis or a quote. -/
def CodePoint.EndsWord (c : CodePoint) : Prop :=
  c = CodePoint.ofChar ' ' ∨ c = CodePoint.ofChar '(' ∨ c = CodePoint.ofChar ')' ∨ c = CodePoint.ofChar '"'

instance (c : CodePoint) : Decidable c.EndsWord := inferInstanceAs (Decidable (_ ∨ _))

/-- A text that is not empty and in which nothing ends a word. -/
structure Text.IsWord (t : Text) : Prop where
  nonempty : t ≠ []
  solid : ∀ c ∈ t, ¬ c.EndsWord

instance (t : Text) : Decidable t.IsWord :=
  decidable_of_iff (t ≠ [] ∧ ∀ c ∈ t, ¬ c.EndsWord) ⟨fun both => ⟨both.1, both.2⟩, fun word => ⟨word.1, word.2⟩⟩

/-- A word, a string, or trees in parentheses. -/
inductive Tree where
  | word (w : Text)
  | string (t : Text)
  | group (items : List Tree)

namespace Tree

mutual

/-- A tree as it is written. -/
def text : Tree → Text
  | .word w => w
  | .string t => Escapes.quote t
  | .group [] => lit "()"
  | .group (first :: rest) => CodePoint.ofChar '(' :: (text first ++ behind rest)

/-- What is written behind the first of some trees in parentheses: the others, and the last parenthesis. -/
def behind : List Tree → Text
  | [] => lit ")"
  | item :: rest => CodePoint.ofChar ' ' :: (text item ++ behind rest)

end

theorem spaced_cons (first : Text) (rest : List Text) :
    Text.spaced (first :: rest) = first ++ rest.flatMap fun part => lit " " ++ part := by
  unfold Text.spaced
  induction rest generalizing first with
  | nil => simp [List.intercalate]
  | cons second rest ih =>
    rw [List.flatMap_cons, List.append_assoc, ← ih]
    simp [List.intercalate]

theorem behind_eq (items : List Tree) :
    behind items = (items.map text).flatMap (fun part => lit " " ++ part) ++ lit ")" := by
  induction items with
  | nil => rfl
  | cons item rest ih => simp [behind, ih, lit]

@[simp] theorem text_word (w : Text) : (word w).text = w := rfl

@[simp] theorem text_group (items : List Tree) : (group items).text = Expr.parenthesized (items.map text) := by
  cases items with
  | nil => rfl
  | cons first rest =>
    rw [text, behind_eq, Expr.parenthesized, List.map_cons, spaced_cons]
    simp [lit]

/-- A tree that can be read: its words are words, and its strings are read as they are written. -/
inductive Sound : Tree → Prop
  | word {w} (word : w.IsWord) : Sound (.word w)
  | string {t} (joined : Text.Joined t) : Sound (.string t)
  | group {items} (items_sound : ∀ item ∈ items, Sound item) : Sound (.group items)

/-- A text in front of which a tree ends. -/
def Stops (rest : Text) : Prop :=
  ∀ c, rest.head? = some c → c = CodePoint.ofChar ' ' ∨ c = CodePoint.ofChar ')'

theorem stops_behind (items : List Tree) (rest : Text) : Stops (behind items ++ rest) := by
  intro c front
  cases items with
  | nil =>
    cases front
    exact .inr rfl
  | cons item items =>
    rw [behind] at front
    cases front
    exact .inl rfl

/-! ## Where trees end -/

theorem not_endsWord_of_stops {rest : Text} (stops : Stops rest) {c : CodePoint} (front : rest.head? = some c) :
    c.EndsWord := by
  rcases stops c front with rfl | rfl <;> decide

/-- A word ends where the text goes on with what ends one. -/
theorem word_unique {v w rest behind : Text} (first : v.IsWord) (second : w.IsWord) (stops : Stops rest)
    (others : Stops behind) (same : v ++ rest = w ++ behind) : v = w ∧ rest = behind := by
  have front {w rest : Text} (word : w.IsWord) (stops : Stops rest) :
      (w ++ rest).takeWhile (fun c => !decide c.EndsWord) = w := by
    have none : rest.takeWhile (fun c => !decide c.EndsWord) = [] := by
      cases rest with
      | nil => rfl
      | cons c rest => simp [not_endsWord_of_stops stops rfl]
    rw [List.takeWhile_append_of_pos fun c member => by simpa using word.solid c member, none, List.append_nil]
  obtain rfl : v = w := by rw [← front first stops, same, front second others]
  exact ⟨rfl, List.append_cancel_left same⟩

/-- A string ends at the quote that closes it, whatever it holds. -/
theorem quote_unique {s t rest behind : Text} (first : Text.Joined s) (second : Text.Joined t)
    (same : Escapes.quote s ++ rest = Escapes.quote t ++ behind) : s = t ∧ rest = behind := by
  have closes {t : Text} (joined : Text.Joined t) (rest : Text) := JsonToken.scanString_quoted joined 0 0
    (fun c _ => (nofun : JsonToken.Apart [] c)) rest
  have body (t rest : Text) : Escapes.quote t ++ rest =
      CodePoint.ofChar '"' :: (t.flatMap Escapes.point ++ CodePoint.ofChar '"' :: rest) := by
    simp [Escapes.quote]
    rfl
  have text : s = t := by
    obtain ⟨pieces, read, points⟩ := closes first rest
    obtain ⟨others, other, further⟩ := closes second behind
    rw [body, body] at same
    rw [(List.cons.inj same).2, other] at read
    obtain ⟨rfl, -⟩ := Prod.mk.inj (Except.ok.inj read)
    rw [points] at further
    simpa using further
  subst text
  exact ⟨rfl, List.append_cancel_left same⟩

/-- What the text of a tree begins with, where that ends a word. -/
def opener : Tree → Option CodePoint
  | .word _ => none
  | .string _ => some (CodePoint.ofChar '"')
  | .group _ => some (CodePoint.ofChar '(')

theorem Sound.exists_head {t : Tree} (sound : t.Sound) :
    ∃ c more, t.text = c :: more ∧ t.opener = if c.EndsWord then some c else none := by
  cases sound with
  | word word =>
    obtain ⟨c, more, rfl⟩ := List.exists_cons_of_ne_nil word.nonempty
    exact ⟨c, more, rfl, (if_neg (word.solid c List.mem_cons_self)).symm⟩
  | string => exact ⟨_, _, rfl, rfl⟩
  | @group items => cases items <;> exact ⟨_, _, rfl, rfl⟩

theorem Sound.opener_eq {s t : Tree} (first : s.Sound) (second : t.Sound) {rest behind : Text}
    (same : s.text ++ rest = t.text ++ behind) : s.opener = t.opener := by
  obtain ⟨c, more, left, kind⟩ := first.exists_head
  obtain ⟨d, others, right, other⟩ := second.exists_head
  rw [left, right] at same
  rw [kind, other, (List.cons.inj same).1]

/-- No tree begins like the end of a list of trees. -/
theorem Sound.ne_close {t : Tree} (sound : t.Sound) {rest behind : Text} :
    t.text ++ rest ≠ CodePoint.ofChar ')' :: behind := by
  intro same
  obtain ⟨c, more, text, kind⟩ := sound.exists_head
  rw [text] at same
  rw [(List.cons.inj same).1, if_pos (by decide)] at kind
  cases t with
  | word => cases kind
  | _ => exact absurd (Option.some.inj kind) (by decide)

/-- The tree is known from its text, wherever that stands. -/
def Unique (s : Tree) : Prop :=
  ∀ {t rest behind}, t.Sound → Stops rest → Stops behind → s.text ++ rest = t.text ++ behind → s = t ∧ rest = behind

/-- So are trees behind the first one in parentheses. -/
theorem behind_unique {xs ys : List Tree} (known : ∀ x ∈ xs, x.Unique) (sound : ∀ y ∈ ys, y.Sound)
    {rest others : Text} (same : behind xs ++ rest = behind ys ++ others) : xs = ys ∧ rest = others := by
  induction xs generalizing ys with
  | nil =>
    cases ys with
    | nil => exact ⟨rfl, (List.cons.inj same).2⟩
    | cons y ys => exact absurd (List.cons.inj same).1 (by decide)
  | cons x xs ih =>
    cases ys with
    | nil => exact absurd (List.cons.inj same).1 (by decide)
    | cons y ys =>
      obtain ⟨first, further⟩ := List.forall_mem_cons.mp known
      obtain ⟨second, more⟩ := List.forall_mem_cons.mp sound
      have tail : x.text ++ (behind xs ++ rest) = y.text ++ (behind ys ++ others) := by
        simpa [behind] using same
      obtain ⟨rfl, left⟩ := first second (stops_behind xs rest) (stops_behind ys others) tail
      obtain ⟨rfl, right⟩ := ih further more left
      exact ⟨rfl, right⟩

/-- A tree is known from its text, and so is where it ends. -/
theorem Sound.unique {s : Tree} (sound : s.Sound) : s.Unique := by
  induction sound with
  | @word v word =>
    intro t rest behind other stops ends same
    have kind := (Sound.word word).opener_eq other same
    cases other with
    | word other =>
      obtain ⟨rfl, further⟩ := word_unique word other stops ends same
      exact ⟨rfl, further⟩
    | _ => cases kind
  | @string v joined =>
    intro t rest behind other stops ends same
    have kind := (Sound.string joined).opener_eq other same
    cases other with
    | string other =>
      obtain ⟨rfl, further⟩ := quote_unique joined other same
      exact ⟨rfl, further⟩
    | word => cases kind
    | group => exact absurd (Option.some.inj kind) (by decide)
  | @group xs sound ih =>
    intro t rest behind other stops ends same
    have kind := (Sound.group sound).opener_eq other same
    cases other with
    | @group ys others =>
      cases xs with
      | nil =>
        cases ys with
        | nil => exact ⟨rfl, List.append_cancel_left same⟩
        | cons y ys =>
          have tail : y.text ++ (Tree.behind ys ++ behind) = CodePoint.ofChar ')' :: rest := by
            simpa [text, lit] using same.symm
          exact absurd tail (others y List.mem_cons_self).ne_close
      | cons x xs =>
        obtain ⟨known, further⟩ := List.forall_mem_cons.mp ih
        cases ys with
        | nil =>
          have tail : x.text ++ (Tree.behind xs ++ rest) = CodePoint.ofChar ')' :: behind := by
            simpa [text, lit] using same
          exact absurd tail (sound x List.mem_cons_self).ne_close
        | cons y ys =>
          obtain ⟨second, more⟩ := List.forall_mem_cons.mp others
          have tail : x.text ++ (Tree.behind xs ++ rest) = y.text ++ (Tree.behind ys ++ behind) := by
            simpa [text] using same
          obtain ⟨rfl, left⟩ := known second (stops_behind xs rest) (stops_behind ys behind) tail
          obtain ⟨rfl, right⟩ := behind_unique further more left
          exact ⟨rfl, right⟩
    | word => cases kind
    | string => exact absurd (Option.some.inj kind) (by decide)

end Tree

end CallByValue
