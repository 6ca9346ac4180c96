import Stylesheet.Proofs.Lexeme.Shift
import Stylesheet.Proofs.Statement.Continuation

/-! Parsing further back. A parser that stands further back in a source, behind
statements it has read already, does what a parser on the rest alone does: it gives the
same statements behind those it has, or fails with the same error, and only the offsets
are greater. -/
namespace Stylesheet

def Parameter.shift (k : Nat) (parameter : Parameter) : Parameter :=
  { parameter with default := parameter.default.map (List.map (Lexeme.shift k)) }

def Argument.shift (k : Nat) (argument : Argument) : Argument :=
  { argument with value := argument.value.map (Lexeme.shift k) }

namespace Statement

mutual
/-- The statement further back: every offset in it is greater by `k`. -/
def shift (k : Nat) : Statement → Statement
  | .rule selectors body depth => .rule selectors (shiftAll k body) depth
  | .property name offset value => .property name (offset.map (· + (k : Int))) (value.map (Lexeme.shift k))
  | .assignment name offset value isDefault isGlobal =>
    .assignment name (offset.map (· + (k : Int))) (value.map (Lexeme.shift k)) isDefault isGlobal
  | .comment text => .comment text
  | .mixin name parameters body => .mixin name (parameters.map (Parameter.shift k)) (shiftAll k body)
  | .call name arguments offset => .call name (arguments.map (Argument.shift k)) (offset.map (· + (k : Int)))

def shiftAll (k : Nat) : List Statement → List Statement
  | [] => []
  | s :: rest => shift k s :: shiftAll k rest
end

theorem shiftAll_eq_map (k : Nat) (ss : List Statement) : shiftAll k ss = ss.map (shift k) := by
  induction ss with
  | nil => rfl
  | cons s ss ih => rw [shiftAll, ih, List.map_cons]

end Statement

namespace Parser

variable {k : Nat}

/-- The parser `q` is `p` further back. What has been reported, and in which mode the
parser is, does not count. -/
structure Shifted (k : Nat) (p q : Parser) : Prop where
  cursor : p.cursor.Shifted k q.cursor
  depth : q.depth = p.depth

/-- The second result is the first one further back, where `g` moves what is given. -/
def Moved (k : Nat) (g : α → β) :
    EStateM.Result Failure Parser α → EStateM.Result Failure Parser β → Prop
  | .ok a p, result => ∃ q, result = .ok (g a) q ∧ Shifted k p q
  | .error failure _, result => ∃ q, result = .error (failure.shift k) q

theorem Moved.result_eq {g : α → β} {r : EStateM.Result Failure Parser α} {r' : EStateM.Result Failure Parser β}
    (moved : Moved k g r r') : result r' = shifted k g (result r) := by
  cases r with
  | ok a p =>
    obtain ⟨q, rfl, -⟩ := moved
    rfl
  | error failure p =>
    obtain ⟨q, rfl⟩ := moved
    rfl

/-- What the step `x` does, `y` does further back. -/
def Moves (k : Nat) (g : α → β) (x : Parse α) (y : Parse β) : Prop :=
  ∀ p q, Shifted k p q → Moved k g (x p) (y q)

theorem Moves.bind {g : α → β} {h : α' → β'} {x : Parse α} {y : Parse β} {f : α → Parse α'} {f' : β → Parse β'}
    (first : Moves k g x y) (next : ∀ a, Moves k h (f a) (f' (g a))) : Moves k h (x >>= f) (y >>= f') := by
  intro p q moved
  have ran := first p q moved
  cases result : x p with
  | ok a p' =>
    rw [result] at ran
    obtain ⟨q', ran, moved⟩ := ran
    rw [bind_of_ok result, bind_of_ok ran]
    exact next a p' q' moved
  | error failure p' =>
    rw [result] at ran
    obtain ⟨q', ran⟩ := ran
    rw [bind_of_error result, bind_of_error ran]
    exact ⟨q', rfl⟩

/-- Tests that look at tokens only are the same further back, by definition. -/
theorem Moves.ite {g : α → β} {x x' : Parse α} {y y' : Parse β} {c d : Prop} [Decidable c] [Decidable d]
    (same : d ↔ c) (yes : Moves k g x y) (no : Moves k g x' y') :
    Moves k g (if c then x else x') (if d then y else y') := by
  by_cases here : c
  · rwa [if_pos here, if_pos (same.mpr here)]
  · rwa [if_neg here, if_neg (mt same.mp here)]

theorem moves_pure {g : α → β} (a : α) : Moves k g (pure a) (pure (g a)) := fun _ q moved => ⟨q, rfl, moved⟩

theorem moves_pure_of {g : α → β} {a : α} {b : β} (same : g a = b) : Moves k g (pure a) (pure b) :=
  same ▸ moves_pure a

theorem moves_fail {g : α → β} (cause : Cause) (offset : Option Int) :
    Moves k g (fail cause offset) (fail cause (offset.map (· + (k : Int)))) := fun _ q _ => ⟨q, rfl⟩

theorem moves_failAtEnd {g : α → β} (cause : Cause) : Moves k g (failAtEnd cause) (failAtEnd cause) := by
  intro p q moved
  refine ⟨q, ?_⟩
  have length : ((q.cursor.length : Nat) : Int) = p.cursor.length + k := by
    rw [moved.cursor.length]
    rfl
  change EStateM.Result.error (Failure.error cause (some (q.cursor.length : Int))) q = _
  rw [length]
  rfl

/-- What a step looks up in the state may depend on where the parser stands. -/
theorem moves_get_bind {g : α → β} {f : Parser → Parse α} {f' : Parser → Parse β}
    (next : ∀ p q, Shifted k p q → Moves k g (f p) (f' q)) : Moves k g (get >>= f) (get >>= f') :=
  fun p q moved => next p q moved p q moved

theorem moves_report (event event' : Event) : Moves k id (report event) (report event') :=
  fun _ _ moved => ⟨_, rfl, moved.cursor, moved.depth⟩

theorem moves_switch (mode : Mode) : Moves k id (switch mode) (switch mode) := by
  intro p q moved
  obtain ⟨p', switched, cursor, depth⟩ := switch_eq mode p
  obtain ⟨q', switched', cursor', depth'⟩ := switch_eq mode q
  rw [switched, switched']
  refine ⟨q', rfl, ?_, by rw [depth, depth', moved.depth]⟩
  rw [cursor, cursor']
  exact moved.cursor

theorem moves_reading {g : α → α} {f : Cursor.Step α} (moves : Cursor.Moves k g f) :
    Moves k g (reading f) (reading f) := by
  intro p q moved
  obtain ⟨result, cursor⟩ := moves p.cursor q.cursor moved.cursor
  unfold reading
  dsimp only
  rw [result]
  cases (f p.cursor).1 with
  | ok a => exact ⟨_, rfl, cursor, moved.depth⟩
  | error failure => exact ⟨_, rfl⟩

theorem moves_take : Moves k (Option.map (Lexeme.shift k)) take take := moves_reading Cursor.moves_next

theorem moves_peek : Moves k (Option.map (Lexeme.shift k)) peek peek := moves_reading Cursor.moves_peek

theorem moves_mapM {g : α → α'} {h : β → β'} {f : α → Parse β} {f' : α' → Parse β'}
    (each : ∀ a, Moves k h (f a) (f' (g a))) (as : List α) :
    Moves k (List.map h) (as.mapM f) ((as.map g).mapM f') := by
  induction as with
  | nil => exact moves_pure _
  | cons a as ih =>
    rw [List.map_cons, List.mapM_cons, List.mapM_cons]
    exact (each a).bind fun _ => ih.bind fun _ => moves_pure _

theorem moves_expect (op : Operator) (place : Place) : Moves k id (expect op place) (expect op place) := by
  refine moves_take.bind fun found => ?_
  cases found with
  | none => exact moves_failAtEnd _
  | some l => exact .ite Iff.rfl (moves_pure _) (moves_fail _ _)

theorem moves_takeSelector : Moves k (List.map (Lexeme.shift k)) takeSelector takeSelector := by
  intro p q moved
  rw [takeSelector_eq, takeSelector_eq, moved.cursor.ahead, List.takeWhile_map, List.dropWhile_map,
    ← List.map_tail]
  exact ⟨_, rfl, ⟨rfl, moved.cursor.pending, moved.cursor.length⟩, moved.depth⟩

theorem moves_ruleHead : Moves k id ruleHead ruleHead := by
  refine (moves_switch _).bind fun _ => moves_get_bind fun p q moved => moves_takeSelector.bind fun lexemes => ?_
  have start : q.cursor.ahead.head?.bind (·.offset) =
      (p.cursor.ahead.head?.bind (·.offset)).map (· + (k : Int)) := by
    rw [moved.cursor.ahead]
    exact Expression.offset_shift k p.cursor.ahead
  rw [Expression.withoutComments_shift, Expression.split_shift, start, ← List.map_id_fun]
  refine moves_mapM (fun group => ?_) _
  dsimp only
  rw [Expression.join_shift]
  exact .ite Iff.rfl (moves_fail _ _) (moves_pure _)

theorem cutValue_shift (k depth : Nat) (ls : List Lexeme) :
    cutValue depth (ls.map (Lexeme.shift k)) =
      (cutValue depth ls).map fun (value, after) => (value.map (Lexeme.shift k), after.map (Lexeme.shift k)) := by
  induction ls generalizing depth with
  | nil => rfl
  | cons l ls ih =>
    rw [List.map_cons, cutValue, cutValue, Lexeme.shift_isOp, Lexeme.shift_isOp, Lexeme.shift_depthAfter, ih]
    split
    · rfl
    split
    · rfl
    · cases cutValue (l.depthAfter depth) ls <;> rfl

theorem moves_takeValue : Moves k (List.map (Lexeme.shift k)) takeValue takeValue := by
  intro p q moved
  have same := cutValue_shift k 0 p.cursor.ahead
  rw [← moved.cursor.ahead] at same
  cases cut : cutValue 0 p.cursor.ahead with
  | some parts =>
    rw [cut] at same
    rw [takeValue_of cut, takeValue_of same, Expression.withoutComments_shift]
    exact ⟨_, rfl, ⟨rfl, moved.cursor.pending, moved.cursor.length⟩, moved.depth⟩
  | none =>
    rw [cut] at same
    rw [takeValue_of_none cut, takeValue_of_none same, moved.cursor.length]
    exact ⟨_, rfl⟩

/-- The flags of an assignment are found by their tokens. -/
theorem flags_shift (k : Nat) (value : Expression) :
    ((value.map (Lexeme.shift k)).reverse.takeWhile fun l => (flag? l).isSome).filterMap flag? =
      (value.reverse.takeWhile fun l => (flag? l).isSome).filterMap flag? := by
  rw [← List.map_reverse, List.takeWhile_map, List.filterMap_map]
  rfl

theorem unflagged_shift (k : Nat) (value : Expression) :
    ((value.map (Lexeme.shift k)).reverse.dropWhile fun l => (flag? l).isSome).reverse =
      (value.reverse.dropWhile fun l => (flag? l).isSome).reverse.map (Lexeme.shift k) := by
  rw [← List.map_reverse, List.dropWhile_map, ← List.map_reverse]
  rfl

theorem moves_declaration (topLevel : Bool) :
    Moves k (Statement.shift k) (declaration topLevel) (declaration topLevel) := by
  refine (moves_switch _).bind fun _ => moves_take.bind fun found => ?_
  cases found with
  | none => exact moves_failAtEnd _
  | some l =>
    dsimp only [Option.map_some]
    rw [Lexeme.shift_ident?]
    cases l.ident? with
    | none => exact moves_fail _ _
    | some name =>
      refine (moves_expect _ _).bind fun _ => moves_takeValue.bind fun value => ?_
      rw [flags_shift, unflagged_shift]
      refine .ite Iff.rfl (.ite ?_ (moves_fail _ _) (moves_pure _))
        (.ite ?_ (moves_fail _ _) (.ite Iff.rfl (moves_fail _ _) (moves_pure _)))
      · rw [List.isEmpty_map]
      · rw [List.isEmpty_map]

theorem moves_parenthesized : Moves k (List.map (List.map (Lexeme.shift k))) parenthesized parenthesized := by
  refine moves_take.bind fun _ => (moves_reading (Cursor.moves_group 0)).bind fun inner => ?_
  cases inner with
  | none => exact moves_failAtEnd _
  | some inner =>
    dsimp only [Option.map_some]
    rw [Expression.withoutComments_shift]
    cases Expression.withoutComments inner with
    | nil => exact moves_pure _
    | cons l inner =>
      change Moves k _ _ (pure (Expression.split .comma ((l :: inner).map (Lexeme.shift k))))
      rw [Expression.split_shift]
      exact moves_pure _

theorem moves_groups : Moves k (List.map (List.map (Lexeme.shift k))) groups groups := by
  refine moves_peek.bind fun found => ?_
  cases found with
  | none => exact moves_pure _
  | some l => exact .ite Iff.rfl moves_parenthesized (moves_pure _)

theorem named_shift (k : Nat) (group : Expression) :
    named (group.map (Lexeme.shift k)) = ((named group).1, (named group).2.map (Lexeme.shift k)) := by
  match group with
  | [] => rfl
  | [l] => rfl
  | first :: second :: rest =>
    simp only [named, List.map_cons, Lexeme.shift_reference?, Lexeme.shift_isOp]
    cases first.reference? with
    | none => rfl
    | some name =>
      dsimp only
      split <;> rfl

theorem moves_parameter (group : Expression) :
    Moves k (Parameter.shift k) (parameter group) (parameter (group.map (Lexeme.shift k))) := by
  unfold parameter
  rw [named_shift]
  obtain ⟨name, default⟩ := named group
  cases name with
  | some name =>
    dsimp only
    cases default with
    | nil => exact moves_pure _
    | cons l default => exact moves_pure _
  | none =>
    dsimp only
    match group with
    | [] => exact moves_fail _ _
    | [l] =>
      rw [Expression.join_shift]
      simp only [List.map_cons, List.map_nil, Lexeme.shift_reference?]
      cases l.reference? with
      | none => exact moves_fail _ _
      | some name => exact moves_pure _
    | first :: second :: rest =>
      dsimp only
      rw [Expression.join_shift, Expression.offset_shift]
      exact moves_fail _ _

theorem moves_argument (group : Expression) :
    Moves k (Argument.shift k) (argument group) (argument (group.map (Lexeme.shift k))) := by
  unfold argument
  rw [named_shift, Expression.offset_shift]
  dsimp only
  refine .ite ?_ (moves_fail _ _) (moves_pure _)
  rw [List.isEmpty_map]

theorem moves_endCall (keyword name : Text) : Moves k id (endCall keyword name) (endCall keyword name) := by
  refine moves_peek.bind fun found => ?_
  cases found with
  | none => exact moves_failAtEnd _
  | some l =>
    exact .ite Iff.rfl (moves_take.bind fun _ => moves_pure _) (.ite Iff.rfl (moves_pure _) (moves_fail _ _))

def Opening.shift (k : Nat) : Opening → Opening
  | .rule selectors depth => .rule selectors depth
  | .mixin name parameters => .mixin name (parameters.map (Parameter.shift k))

theorem moves_mixinHead (name : Text) : Moves k (Opening.shift k) (mixinHead name) (mixinHead name) :=
  moves_groups.bind fun _ => (moves_mapM moves_parameter _).bind fun _ => (moves_expect _ _).bind fun _ =>
    (moves_report _ _).bind fun _ => moves_pure _

theorem moves_callTail (keyword name : Text) (offset : Option Int) :
    Moves k (Statement.shift k) (callTail keyword name offset)
      (callTail keyword name (offset.map (· + (k : Int)))) :=
  moves_groups.bind fun _ => (moves_endCall _ _).bind fun _ => (moves_mapM moves_argument _).bind fun _ =>
    moves_pure _

theorem moves_atRuleTail (keyword : Text) (offset : Option Int) :
    Moves k (Sum.map (Statement.shift k) (Opening.shift k)) (atRuleTail keyword offset)
      (atRuleTail keyword (offset.map (· + (k : Int)))) := by
  refine moves_take.bind fun found => ?_
  cases found with
  | none => exact moves_failAtEnd _
  | some l =>
    dsimp only [Option.map_some]
    refine .ite Iff.rfl (moves_fail _ _) ?_
    rw [Lexeme.shift_ident?]
    cases l.ident? with
    | none => exact moves_fail _ _
    | some name =>
      exact .ite Iff.rfl ((moves_mixinHead _).bind fun _ => moves_pure _)
        ((moves_callTail _ _ _).bind fun _ => moves_pure _)

/-- The statements of a body further back, behind others if it is the outermost. -/
def placed (k : Nat) (ss : List Statement) (outer : List Block) (body : List Statement) : List Statement :=
  (if outer.isEmpty then ss else []) ++ body.map (Statement.shift k)

/-- Open bodies further back, the outermost behind other statements. -/
def behind (k : Nat) (ss : List Statement) : List Block → List Block
  | [] => []
  | block :: outer => ⟨block.opening.shift k, placed k ss outer block.before⟩ :: behind k ss outer

def Progress.behind (k : Nat) (ss : List Statement) : Progress → Progress
  | .reading blocks body => .reading (Parser.behind k ss blocks) (placed k ss blocks body)
  | .finished body => .finished (ss ++ body.map (Statement.shift k))

theorem behind_isEmpty (ss : List Statement) (blocks : List Block) :
    (behind k ss blocks).isEmpty = blocks.isEmpty := by
  cases blocks <;> rfl

theorem placed_append (ss : List Statement) (outer : List Block) (body : List Statement) (s : Statement) :
    placed k ss outer (body ++ [s]) = placed k ss outer body ++ [s.shift k] := by
  rw [placed, placed, List.map_append, List.append_assoc]
  rfl

theorem Opening.statement_shift (opening : Opening) (body : List Statement) :
    (opening.statement body).shift k = (opening.shift k).statement (body.map (Statement.shift k)) := by
  rw [← Statement.shiftAll_eq_map]
  cases opening <;> rfl

theorem moves_close (ss : List Statement) (block : Block) (outer : List Block) (body : List Statement) :
    Moves k (placed k ss outer) (close block body)
      (close ⟨block.opening.shift k, placed k ss outer block.before⟩ (body.map (Statement.shift k))) := by
  have leaves : Moves k id leaveRule leaveRule := fun p q moved =>
    ⟨_, rfl, moved.cursor, congrArg (· - 1) moved.depth⟩
  have closed := placed_append (k := k) ss outer block.before (block.opening.statement body)
  rw [Opening.statement_shift] at closed
  obtain ⟨opening, before⟩ := block
  cases opening with
  | rule selectors depth => exact leaves.bind fun _ => (moves_switch _).bind fun _ => moves_pure_of closed
  | mixin name parameters => exact moves_pure_of closed

theorem moves_enterRule : Moves k id enterRule enterRule := by
  intro p q moved
  refine ⟨{ q with depth := q.depth + 1 }, ?_, moved.cursor, congrArg (· + 1) moved.depth⟩
  rw [id, ← moved.depth]
  rfl

theorem moves_item (ss : List Statement) (topLevel : Bool) (blocks : List Block) (body : List Statement)
    (l : Lexeme) :
    Moves k (Progress.behind k ss) (item topLevel blocks body l)
      (item topLevel (behind k ss blocks) (placed k ss blocks body) (l.shift k)) := by
  have added (s : Statement) : Progress.behind k ss (.reading blocks (body ++ [s])) =
      .reading (behind k ss blocks) (placed k ss blocks body ++ [s.shift k]) :=
    congrArg (Progress.reading _) (placed_append ss blocks body s)
  unfold item
  refine .ite Iff.rfl (moves_take.bind fun _ => moves_pure _) (.ite Iff.rfl ?_ (.ite Iff.rfl ?_ (.ite Iff.rfl ?_ ?_)))
  · cases blocks with
    | cons block outer =>
      -- The body around the closed one is the outermost where no other block is left.
      exact moves_take.bind fun _ => (moves_close ss block outer body).bind fun _ => moves_pure _
    | nil => exact .ite Iff.rfl (moves_fail _ _) (moves_take.bind fun _ => moves_pure _)
  · exact (moves_switch _).bind fun _ => moves_take.bind fun _ => moves_pure_of (added (.comment l.raw))
  · refine moves_take.bind fun _ => (moves_atRuleTail _ _).bind fun result => ?_
    cases result with
    | inl call => exact moves_pure_of (added call)
    | inr opening => exact moves_pure _
  · refine (moves_reading Cursor.moves_boundary).bind fun found => ?_
    dsimp only [id]
    split
    · exact moves_ruleHead.bind fun _ => moves_enterRule.bind fun _ => moves_pure _
    · refine Moves.bind ?_ fun s => moves_pure_of (added s)
      rw [behind_isEmpty]
      exact moves_declaration _

theorem moves_round (ss : List Statement) (topLevel : Bool) (blocks : List Block) (body : List Statement) :
    Moves k (Progress.behind k ss) (round topLevel blocks body)
      (round topLevel (behind k ss blocks) (placed k ss blocks body)) := by
  refine moves_peek.bind fun found => ?_
  cases found with
  | some l => exact moves_item ss topLevel blocks body l
  | none =>
    dsimp only [Option.map_none]
    rw [behind_isEmpty]
    split
    · next outermost =>
      rw [Bool.and_eq_true, List.isEmpty_iff] at outermost
      obtain ⟨-, rfl⟩ := outermost
      exact moves_pure _
    · exact moves_failAtEnd _

/-- Rounds do the same further back, behind statements that are there already. -/
theorem moves_rounds (ss : List Statement) (topLevel : Bool) (blocks : List Block) (body : List Statement) :
    Moves k (fun body => ss ++ body.map (Statement.shift k)) (rounds topLevel blocks body)
      (rounds topLevel (behind k ss blocks) (placed k ss blocks body)) := by
  intro p q moved
  have ran := moves_round ss topLevel blocks body p q moved
  fun_induction rounds topLevel blocks body p generalizing q with
  | case1 blocks body p failure p' failed =>
    rw [failed] at ran
    obtain ⟨q', ran⟩ := ran
    rw [rounds_eq, ran]
    exact ⟨q', rfl⟩
  | case2 blocks body p body' p' finished =>
    rw [finished] at ran
    obtain ⟨q', ran, moved⟩ := ran
    rw [rounds_eq, ran]
    exact ⟨q', rfl, moved⟩
  | case3 blocks body p blocks' body' p' read ih =>
    rw [read] at ran
    obtain ⟨q', ran, moved⟩ := ran
    rw [rounds_of_reading ran]
    exact ih q' moved (moves_round ss topLevel blocks' body' p' q' moved)

end Parser

end Stylesheet
