import CallByValue.Proofs.Forms
import Mathlib.Data.List.Nodup

/-!
# The order of names

A frame is looked into by name only. So it does not matter in which order its
names were bound, nor what a name was bound to before it was bound again: over
frames that give each name the same entry, evaluation comes to the very same.
-/

namespace CallByValue

/-! ## Tables -/

namespace Table

variable {α β : Type}

theorem find?_ofPairs_map (f : α → β) (pairs : List (Text × α)) (x : Text) :
    (ofPairs (pairs.map fun (name, entry) => (name, f entry))).find? x = ((ofPairs pairs).find? x).map f := by
  rw [find?_ofPairs, find?_ofPairs, ← List.map_reverse, List.find?_map, Option.map_map, Option.map_map]
  rfl

/-- Of two lists of pairs the one behind goes first. -/
theorem find?_ofPairs_append (front back : List (Text × α)) (x : Text) :
    (ofPairs (front ++ back)).find? x = ((ofPairs back).find? x).or ((ofPairs front).find? x) := by
  rw [find?_ofPairs, find?_ofPairs, find?_ofPairs, List.reverse_append, List.find?_append, Option.map_or]

theorem find?_ofPairs_cons (name : Text) (entry : α) (later : List (Text × α)) (x : Text) :
    (ofPairs ((name, entry) :: later)).find? x =
      ((ofPairs later).find? x).or ((ofPairs [(name, entry)]).find? x) :=
  find?_ofPairs_append [(name, entry)] later x

/-- A name that is not bound again has its entry. -/
theorem find?_ofPairs_last (earlier : List (Text × α)) {later : List (Text × α)} {name : Text}
    (last : name ∉ later.map (·.1)) (entry : α) :
    (ofPairs (earlier ++ (name, entry) :: later)).find? name = some entry := by
  rw [find?_ofPairs_append, find?_ofPairs_cons, find?_ofPairs_eq_none.mpr last, find?_single]
  rfl

/-- What a name that is bound again was bound to before does not show. -/
theorem find?_ofPairs_of_rebound (earlier : List (Text × α)) {later : List (Text × α)} {name : Text}
    (again : name ∈ later.map (·.1)) (entry : α) (x : Text) :
    (ofPairs (earlier ++ (name, entry) :: later)).find? x = (ofPairs (earlier ++ later)).find? x := by
  rw [find?_ofPairs_append, find?_ofPairs_append, find?_ofPairs_cons]
  cases found : (ofPairs later).find? x with
  | some e => rfl
  | none =>
    have differs : x ≠ name := by
      rintro rfl
      exact find?_ofPairs_eq_none.mp found again
    rw [find?_single_of_ne differs]
    rfl

theorem find?_eq_some_of_mem {pairs : List (Text × α)} (distinct : (pairs.map (·.1)).Nodup) {pair : Text × α}
    (member : pair ∈ pairs) : pairs.find? (·.1 = pair.1) = some pair := by
  induction pairs with
  | nil => cases member
  | cons first rest ih =>
    obtain ⟨absent, others⟩ := List.nodup_cons.mp distinct
    rcases List.mem_cons.mp member with rfl | member
    · simp
    · have differs : first.1 ≠ pair.1 := fun same => absent (List.mem_map.mpr ⟨pair, member, same.symm⟩)
      rw [List.find?_cons_of_neg (by simpa using differs), ih others member]

theorem find?_ofPairs_eq_some_iff {pairs : List (Text × α)} (distinct : (pairs.map (·.1)).Nodup) {name : Text}
    {entry : α} : (ofPairs pairs).find? name = some entry ↔ (name, entry) ∈ pairs := by
  refine ⟨mem_of_find?_ofPairs, fun member => ?_⟩
  have reversed : (pairs.reverse.map (·.1)).Nodup := by
    rw [List.map_reverse]
    exact List.nodup_reverse.mpr distinct
  have first := find?_eq_some_of_mem reversed (List.mem_reverse.mpr member)
  rw [find?_ofPairs]
  exact congrArg (Option.map (·.2)) first

/-- Distinct names may be bound in any order. -/
theorem find?_ofPairs_of_perm {pairs others : List (Text × α)} (distinct : (pairs.map (·.1)).Nodup)
    (perm : pairs.Perm others) (x : Text) : (ofPairs pairs).find? x = (ofPairs others).find? x := by
  have distinct' : (others.map (·.1)).Nodup := (perm.map _).nodup_iff.mp distinct
  refine Option.ext fun entry => ?_
  rw [find?_ofPairs_eq_some_iff distinct, find?_ofPairs_eq_some_iff distinct', perm.mem_iff]

end Table

/-! ## Stores -/

/-- Two stores of as many frames, of which each gives every name the same entry in both. -/
structure Store.ReadsLike (store other : Store) : Prop where
  size : store.frames.size = other.frames.size
  mark : store.nextMark = other.nextMark
  entries : ∀ frame name, (store.bindings frame).find? name = (other.bindings frame).find? name

namespace Store.ReadsLike

variable {store other : Store}

theorem refl (store : Store) : store.ReadsLike store := ⟨rfl, rfl, fun _ _ => rfl⟩

theorem lookup_eq (alike : store.ReadsLike other) (name : Text) (env : Env) :
    store.lookup name env = other.lookup name env := by
  induction env with
  | nil => rfl
  | cons frame outer ih => rw [lookup_cons, lookup_cons, alike.entries, ih]

theorem next_eq (alike : store.ReadsLike other) (env : Env) : store.next env = other.next env := by
  rw [next, next, alike.size]

theorem push (alike : store.ReadsLike other) {table table' : Table Value}
    (same : ∀ name, table.find? name = table'.find? name) : (store.push table).ReadsLike (other.push table') := by
  refine ⟨?_, alike.mark, fun frame name => ?_⟩
  · rw [size_push, size_push, alike.size]
  · by_cases newest : frame = store.frames.size
    · rw [newest, bindings_push_size, alike.size, bindings_push_size, same]
    · rw [bindings_push_ne newest, bindings_push_ne (alike.size ▸ newest), alike.entries]

end Store.ReadsLike

/-! ## Runs -/

/-- Two runs end in one way and have said the same. -/
structure EndsLike {α : Type} (run run' : Outcome α × Progress) : Prop where
  outcome : run.1 = run'.1
  said : run.2.said = run'.2.said

theorem EndsLike.refl {α : Type} (run : Outcome α × Progress) : EndsLike run run := ⟨rfl, rfl⟩

theorem EndsLike.symm {α : Type} {run run' : Outcome α × Progress} (alike : EndsLike run run') : EndsLike run' run :=
  ⟨alike.outcome.symm, alike.said.symm⟩

/-- They also leave stores that read alike. -/
structure LeavesLike {α : Type} (run run' : Outcome α × Progress) : Prop extends EndsLike run run' where
  store : run.2.store.ReadsLike run'.2.store

namespace Eval

variable {α β : Type}

/-- An evaluation reads frames by name alone. -/
def ByName (m : Eval α) : Prop :=
  ∀ ⦃store other : Store⦄ (said : Array Expr), store.ReadsLike other → LeavesLike (m ⟨store, said⟩) (m ⟨other, said⟩)

namespace ByName

theorem ended (outcome : Outcome α) : (Eval.ended outcome).ByName := fun _ _ _ alike => ⟨⟨rfl, rfl⟩, alike⟩

theorem pure (a : α) : (Pure.pure a : Eval α).ByName := ended (.success a)

theorem bind {m : Eval α} {rest : α → Eval β} (first : m.ByName) (next : ∀ a, (rest a).ByName) :
    (m >>= rest).ByName := by
  intro store other said alike
  obtain ⟨⟨outcome, spoken⟩, stores⟩ := first said alike
  rw [bind_apply, bind_apply]
  generalize m ⟨store, said⟩ = run at outcome spoken stores ⊢
  generalize m ⟨other, said⟩ = run' at outcome spoken stores ⊢
  obtain ⟨ending, now, heard⟩ := run
  obtain ⟨ending', now', heard'⟩ := run'
  obtain rfl : ending = ending' := outcome
  obtain rfl : heard = heard' := spoken
  cases ending with
  | success a => exact next a heard stores
  | failure e => exact ⟨⟨rfl, rfl⟩, stores⟩
  | halted h => exact ⟨⟨rfl, rfl⟩, stores⟩

theorem each {f : Expr → Eval Value} (all : ∀ e, (f e).ByName) (es : List Expr) : (Eval.each f es).ByName := by
  induction es with
  | nil => exact pure []
  | cons e es ih => exact .bind (all e) fun _ => .bind ih fun _ => pure _

theorem last {f : Expr → Eval Value} (all : ∀ e, (f e).ByName) (e : Expr) (es : List Expr) :
    (Eval.last f e es).ByName := by
  induction es generalizing e with
  | nil => exact all e
  | cons next rest ih => exact .bind (all e) fun _ => ih next

theorem lookup (name : Text) (env : Env) : (Eval.lookup name env).ByName := by
  intro store other said alike
  rw [lookup_apply, lookup_apply, alike.lookup_eq]
  cases other.lookup name env <;> exact ⟨⟨rfl, rfl⟩, alike⟩

theorem operate (op : BinaryOperator) (levels : Nat) (a b : Value) : (Eval.operate op levels a b).ByName := by
  intro store other said alike
  rw [operate_apply, operate_apply, alike.mark]
  exact ⟨⟨rfl, rfl⟩, alike.size, congrArg (· + 1) alike.mark, alike.entries⟩

theorem say (channel : Channel) (levels : Nat) (e : Expr) : (Eval.say channel levels e).ByName := by
  intro store other said alike
  rw [say_apply, say_apply]
  cases channel.obstacle? levels e <;> exact ⟨⟨rfl, rfl⟩, alike⟩

theorem extend (env : Env) (pairs : List (Text × Value)) : (Eval.extend env pairs).ByName := by
  intro store other said alike
  rw [extend_apply, extend_apply, alike.next_eq]
  exact ⟨⟨rfl, rfl⟩, alike.push fun _ => rfl⟩

theorem extendRecursive (env : Env) (lambdas : List (Text × List Text × Expr)) :
    (Eval.extendRecursive env lambdas).ByName := by
  intro store other said alike
  rw [extendRecursive_apply, extendRecursive_apply, alike.next_eq]
  exact ⟨⟨rfl, rfl⟩, alike.push fun _ => rfl⟩

end ByName

end Eval

/-- Evaluation reads frames by name alone. -/
theorem evaluate_byName (channel : Channel) (levels : Nat) (e : Expr) (env : Env) :
    (evaluate channel levels e env).ByName := by
  -- By the levels, since the body of a closure that is called is no part of the expression.
  induction levels generalizing e env with
  | zero => exact .ended _
  | succ levels ih =>
    have each : ∀ es, (evaluateEach channel levels es env).ByName := fun es => .each (fun e => ih e env) es
    cases e with
    | literal a => exact .pure _
    | var name => exact .lookup name env
    | binary glyph left right =>
      rw [evaluate_binary]
      cases BinaryOperator.ofGlyph? glyph with
      | none => exact .ended _
      | some op => exact .bind (ih _ _) fun a => .bind (ih _ _) fun b => .operate op levels a b
    | unary glyph operand =>
      rw [evaluate_unary]
      cases UnaryOperator.ofGlyph? glyph with
      | none => exact .ended _
      | some op =>
        cases op with
        | say => exact .say channel levels operand
        | not => exact .bind (ih _ _) fun _ => .pure _
        | isZero => exact .bind (ih _ _) fun _ => .pure _
    | conditional test yes no =>
      rw [evaluate_conditional]
      refine .bind (ih _ _) fun v => ?_
      cases v.isTrue with
      | true => exact ih yes env
      | false => exact ih no env
    | lambda params body => exact .pure _
    | apply callee args =>
      rw [evaluate_apply]
      refine .bind (ih _ _) fun v => ?_
      cases v with
      | closure c =>
        refine .bind (each args) fun values => ?_
        unfold Closure.call
        split
        · exact .bind (.extend _ _) fun inner => ih c.body inner
        · exact .ended _
      | _ => exact .ended _
    | letIn bindings body =>
      rw [evaluate_letIn]
      exact .bind (each _) fun _ => .bind (.extend _ _) fun inner => ih body inner
    | letRec bindings body =>
      rw [evaluate_letRec]
      cases lambdasOf bindings with
      | error name => exact .ended _
      | ok lambdas => exact .bind (.extendRecursive _ _) fun inner => ih body inner
    | sequence first rest =>
      rw [evaluate_sequence]
      exact .last (fun e => ih e env) first rest
    | fix functional =>
      rw [evaluate_fix]
      exact ih _ env

end CallByValue
