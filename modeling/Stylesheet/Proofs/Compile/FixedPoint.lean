import Stylesheet.Proofs.Compile.Stages
import Stylesheet.Proofs.Node.Plain

/-! Plain nodes are a fixed point of the compiler. What they are written as in the
expanded style is read, resolved, flattened and written again, and comes out as it
was. -/
namespace Stylesheet

def blankLine : Text := ['\n', '\n']

/-- The css of chunks: a blank line between them, a newline at the end. -/
def sheetText : List Text → Text
  | [] => []
  | text :: texts => text ++ (texts.flatMap (blankLine ++ ·) ++ ['\n'])

theorem foldl_chunks {out : Text} {texts : List Text} (started : out ≠ []) (nonempty : ∀ text ∈ texts, text ≠ []) :
    (texts.map (blankLine, ·)).foldl (fun out (separator, text) =>
      if text.isEmpty then out else out ++ (if out.isEmpty then [] else separator) ++ text) out =
        out ++ texts.flatMap (blankLine ++ ·) := by
  induction texts generalizing out with
  | nil => simp
  | cons text texts ih =>
    have here := nonempty text List.mem_cons_self
    rw [List.map_cons, List.foldl_cons]
    dsimp only
    rw [if_neg (by simpa using here), if_neg (by simpa using started),
      ih (by simp [here]) fun text member => nonempty text (List.mem_cons_of_mem _ member)]
    simp

theorem render_of_chunks {precision : Int} {ns : List Node} {texts : List Text}
    (written : ns.mapM (Render.chunk .expanded precision) = .ok (texts.map (blankLine, ·)))
    (nonempty : ∀ text ∈ texts, text ≠ []) : render .expanded precision ns = .ok (sheetText texts) := by
  rw [render, written]
  cases texts with
  | nil => rfl
  | cons text texts =>
    have here := nonempty text List.mem_cons_self
    have assembled : Render.assemble ((text :: texts).map (blankLine, ·)) =
        text ++ texts.flatMap (blankLine ++ ·) := by
      rw [Render.assemble, List.map_cons, List.foldl_cons]
      dsimp only
      rw [if_neg (by simpa using here)]
      exact foldl_chunks here fun text member => nonempty text (List.mem_cons_of_mem _ member)
    change Except.ok (if (Render.assemble _).isEmpty then [] else Render.assemble _ ++ ['\n']) = _
    rw [assembled, if_neg (by simp [here]), sheetText, List.append_assoc]

/-- Outside all rules the statements resolve to nodes that are written as the texts
once they are flattened. -/
def SheetResolvesTo (precision : Int) (ss : List Statement) (texts : List Text) : Prop :=
  ∀ expand scope, scope.Unbound → ∃ ns, (Resolve.statements expand scope false ss).result = .ok (ns, scope) ∧
    (flatten ns).mapM (Render.chunk .expanded precision) = .ok (texts.map (blankLine, ·))

/-- The nodes are written as the texts; what follows a chunk is read to the end, as
statements that resolve to those texts again. -/
structure SheetReadBack (precision : Int) (ns : List Node) (texts : List Text) : Prop where
  written : ns.mapM (Render.chunk .expanded precision) = .ok (texts.map (blankLine, ·))
  nonempty : ∀ text ∈ texts, text ≠ []
  read : ∀ (p : Parser) (body : List Statement), p.depth = 0 →
    p.cursor.Before (texts.flatMap (blankLine ++ ·) ++ ['\n']) → ∃ ss p',
      Parser.rounds true [] body p = .ok (body ++ ss) p' ∧ SheetResolvesTo precision ss texts

variable {precision : Int}

theorem SheetResolvesTo.nil : SheetResolvesTo precision [] [] :=
  fun expand scope _ => ⟨[], by rw [Resolve.statements]; rfl, rfl⟩

theorem SheetResolvesTo.cons {s : Statement} {ss : List Statement} {text : Text} {texts : List Text}
    (first : Node.ChunkResolvesTo precision s text) (others : SheetResolvesTo precision ss texts) :
    SheetResolvesTo precision (s :: ss) (text :: texts) := by
  intro expand scope unbound
  obtain ⟨n, resolved, flat, flattened, written⟩ := first expand scope unbound
  obtain ⟨ns, resolvedAll, writtenAll⟩ := others expand scope unbound
  have split : flatten (n :: ns) = flat :: flatten ns := by
    have apart : flatten (n :: ns) = flatten [n] ++ flatten ns := by simp [flatten]
    rw [apart, flattened, List.singleton_append]
  refine ⟨n :: ns, ?_, ?_⟩
  · rw [Resolve.statements, Traced.bind_of_ok resolved, Traced.bind_of_ok resolvedAll]
    rfl
  · rw [split]
    exact mapM_cons_eq_ok.mpr ⟨_, _, written, writtenAll, rfl⟩

theorem sheetReadBack_nil : SheetReadBack precision [] [] := by
  refine ⟨rfl, by simp, fun p body _ before => ?_⟩
  have left := (before.of_space rfl).stream_nil
  obtain ⟨p', ran⟩ := Parser.rounds_of_end body left
  exact ⟨[], p', by rw [ran, List.append_nil], .nil⟩

/-- A chunk is read up to the blank line behind it, and then what follows. -/
theorem SheetReadBack.read_cons {n : Node} {ns : List Node} {text : Text} {texts : List Text}
    (first : Node.ChunkReadBack precision n text) (others : SheetReadBack precision ns texts)
    (p : Parser) (body : List Statement) (outside : p.depth = 0)
    (before : p.cursor.Before (sheetText (text :: texts))) :
    ∃ ss p', Parser.rounds true [] body p = .ok (body ++ ss) p' ∧ SheetResolvesTo precision ss (text :: texts) := by
  obtain ⟨rest, rest_eq⟩ : ∃ rest, texts.flatMap (blankLine ++ ·) ++ ['\n'] = '\n' :: rest := by
    cases texts with
    | nil => exact ⟨[], rfl⟩
    | cons text texts => exact ⟨_, rfl⟩
  rw [sheetText, rest_eq] at before
  obtain ⟨s, p₁, ran, before₁, depth₁, resolves⟩ := first.read p body rest outside before
  rw [← rest_eq] at before₁
  obtain ⟨ss, p₂, ran', resolvesAll⟩ := others.read p₁ (body ++ [s]) depth₁ before₁
  refine ⟨s :: ss, p₂, ?_, .cons resolves resolvesAll⟩
  rw [ran, ran', List.append_assoc, List.singleton_append]

theorem SheetReadBack.cons {n : Node} {ns : List Node} {text : Text} {texts : List Text}
    (first : Node.ChunkReadBack precision n text) (others : SheetReadBack precision ns texts) :
    SheetReadBack precision (n :: ns) (text :: texts) := by
  refine ⟨?_, List.forall_mem_cons.mpr ⟨first.nonempty, others.nonempty⟩, fun p body outside before => ?_⟩
  · exact mapM_cons_eq_ok.mpr ⟨_, _, first.written, others.written, rfl⟩
  · rw [List.flatMap_cons, List.append_assoc, List.append_assoc] at before
    exact read_cons first others p body outside ((before.of_space rfl).of_space rfl)

theorem chunkReadBack (precision : Int) {n : Node} (plain : n.IsPlain) (named : n.IsNamed) :
    ∃ text, Node.ChunkReadBack precision n text := by
  cases n with
  | rule selectors children depth => exact Node.rule_chunkReadBack plain named
  | comment text => exact ⟨text, Node.comment_chunkReadBack plain⟩
  | property => exact plain.elim

theorem sheetReadBack (precision : Int) {ns : List Node} (plain : ∀ n ∈ ns, n.IsPlain)
    (named : ∀ n ∈ ns, n.IsNamed) : ∃ texts, SheetReadBack precision ns texts := by
  induction ns with
  | nil => exact ⟨[], sheetReadBack_nil⟩
  | cons n ns ih =>
    obtain ⟨text, first⟩ := chunkReadBack precision (plain n List.mem_cons_self) (named n List.mem_cons_self)
    obtain ⟨texts, others⟩ := ih (fun n member => plain n (List.mem_cons_of_mem _ member))
      fun n member => named n (List.mem_cons_of_mem _ member)
    exact ⟨text :: texts, .cons first others⟩

/-- The css of plain nodes is parsed to the end. -/
theorem parse_sheet (precision : Int) {ns : List Node} (plain : ∀ n ∈ ns, n.IsPlain) (named : ∀ n ∈ ns, n.IsNamed) :
    ∃ texts ss, SheetReadBack precision ns texts ∧ (parse (sheetText texts)).result = .ok ss ∧
      SheetResolvesTo precision ss texts := by
  cases ns with
  | nil =>
    have left : (Parser.start []).cursor.stream = [] := Cursor.Before.stream_nil ⟨0, rfl⟩
    obtain ⟨p', ran⟩ := Parser.rounds_of_end [] left
    exact ⟨[], [], sheetReadBack_nil, parse_of_rounds ran, .nil⟩
  | cons n ns =>
    obtain ⟨text, first⟩ := chunkReadBack precision (plain n List.mem_cons_self) (named n List.mem_cons_self)
    obtain ⟨texts, others⟩ := sheetReadBack precision (fun n member => plain n (List.mem_cons_of_mem _ member))
      fun n member => named n (List.mem_cons_of_mem _ member)
    let start := Parser.start (sheetText (text :: texts))
    obtain ⟨ss, p', ran, resolves⟩ := SheetReadBack.read_cons first others start [] rfl ⟨0, rfl⟩
    exact ⟨text :: texts, ss, .cons first others, parse_of_rounds ran, resolves⟩

/-- Plain nodes whose rules have selectors, none of them empty, are written to css
that compiles to itself. -/
theorem compile_render_plain {nodes : List Node} (plain : ∀ n ∈ nodes, n.IsPlain)
    (named : ∀ n ∈ nodes, n.IsNamed) (precision : Int) :
    ∃ css, render .expanded precision nodes = .ok css ∧ (compile css .expanded precision).result = .ok css := by
  obtain ⟨texts, ss, sheet, parsed, resolves⟩ := parse_sheet precision plain named
  obtain ⟨ns, resolved, written⟩ := resolves (Resolve.expansion (Resolve.expansionLimit ss))
    (Scope.empty precision) (Scope.unbound_empty precision)
  refine ⟨sheetText texts, render_of_chunks sheet.written sheet.nonempty, compile_ok.mpr ⟨ss, ns, parsed, ?_, ?_⟩⟩
  · rw [resolve, Traced.bind_of_ok rfl, Traced.bind_of_ok resolved]
    rfl
  · exact render_of_chunks written sheet.nonempty

def plainSheet : List Node :=
  [.comment "/* head */".toList,
    .rule ["a > b".toList, "c:not(d, e)".toList]
      [.property "font".toList none (.list
          [.value (.text "bold".toList),
            .value (.number
              ⟨.finite false (12 * Binary64.oneUnits), some "px".toList, false, some "12px".toList, false⟩),
            .separator .slash,
            .value (.number ⟨.finite false (2 * Binary64.oneUnits), none, false, some "2".toList, false⟩),
            .value (.text "serif".toList), .separator .comma, .value (.text "\"x y\"".toList)]),
        .comment "/* in */".toList,
        .property "color".toList none (.color ⟨255, 0, 204, false, "#f0c".toList⟩)] 0]

theorem plainSheet_declarations : ∀ n ∈ plainSheet.flatMap Node.children, n.IsPlainDeclaration := by
  intro n member
  simp only [plainSheet, List.flatMap_cons, List.flatMap_nil, Node.children, List.nil_append, List.append_nil,
    List.mem_cons, List.not_mem_nil, or_false] at member
  rcases member with rfl | rfl | rfl
  · refine ⟨eq_ok_of_toOption (by decide +kernel), by decide, by decide, ?_, ?_⟩
    · exact .beside _ (.separated _ (.inl rfl) (.beside _ (.separated _ (.inr rfl) (.last _))))
    · intro w member
      simp only [Item.spread, List.mem_cons, Item.value.injEq, reduceCtorEq, List.not_mem_nil, or_false,
        false_or] at member
      rcases member with rfl | rfl | rfl | rfl | rfl
      · exact .inl ⟨eq_ok_of_toOption (by decide +kernel), by decide, by decide⟩
      · exact ⟨rfl, ⟨.finite false (12 * Binary64.oneUnits), some "px".toList, false, "12px".toList⟩, rfl,
          eq_ok_of_toOption (by decide +kernel)⟩
      · exact ⟨rfl, ⟨.finite false (2 * Binary64.oneUnits), none, false, "2".toList⟩, rfl,
          eq_ok_of_toOption (by decide +kernel)⟩
      · exact .inl ⟨eq_ok_of_toOption (by decide +kernel), by decide, by decide⟩
      · exact .inr (eq_ok_of_toOption (by decide +kernel))
  · exact eq_ok_of_toOption (by decide +kernel)
  · refine ⟨eq_ok_of_toOption (by decide +kernel), by decide, by decide, .last _, ?_⟩
    intro w member
    simp only [Item.spread, List.mem_cons, Item.value.injEq, List.not_mem_nil, or_false] at member
    subst member
    exact ⟨"f0c".toList, none, by decide, .inl rfl, eq_ok_of_toOption (by decide +kernel)⟩

theorem plainSheet_isPlain : ∀ n ∈ plainSheet, n.IsPlain := by
  intro n member
  have declarations : ∀ child ∈ n.children, child.IsPlainDeclaration := fun child inside =>
    plainSheet_declarations child (List.mem_flatMap.mpr ⟨n, member, inside⟩)
  simp only [plainSheet, List.mem_cons, List.not_mem_nil, or_false] at member
  rcases member with rfl | rfl
  · exact eq_ok_of_toOption (by decide +kernel)
  · refine ⟨?_, ?_, List.cons_ne_nil _ _, declarations⟩
    · intro s member
      simp only [List.mem_cons, List.not_mem_nil, or_false] at member
      refine ⟨(tokenize s).toOption.getD [], ?_⟩
      rcases member with rfl | rfl
      · exact ⟨eq_ok_of_toOption (by decide +kernel), by decide +kernel, by decide +kernel, by decide +kernel,
          by decide +kernel⟩
      · exact ⟨eq_ok_of_toOption (by decide +kernel), by decide +kernel, by decide +kernel, by decide +kernel,
          by decide +kernel⟩
    · rintro s ls l ⟨⟩ tokens first
      have start : (tokenize "a > b".toList).toOption.bind List.head? = some ⟨.ident ['a'], some 0⟩ := by
        decide +kernel
      rw [tokens] at start
      obtain rfl := Option.some.inj (first.symm.trans start)
      decide

theorem plainSheet_isNamed : ∀ n ∈ plainSheet, n.IsNamed := by
  intro n member
  simp only [plainSheet, List.mem_cons, List.not_mem_nil, or_false] at member
  rcases member with rfl | rfl
  · trivial
  · exact ⟨by decide, by decide⟩

theorem compile_render_plainSheet : (∀ n ∈ plainSheet, n.IsPlain) ∧ (∀ n ∈ plainSheet, n.IsNamed) ∧
    ∃ css, String.ofList css = "/* head */\n\na > b, c:not(d, e) \x7b\n  font: bold 12px/2 serif, \"x y\";\n" ++
        "  /* in */\n  color: #f0c;\n\x7d\n" ∧
      render .expanded 5 plainSheet = .ok css ∧ (compile css .expanded 5).result = .ok css := by
  obtain ⟨css, rendered, compiled⟩ := compile_render_plain plainSheet_isPlain plainSheet_isNamed 5
  refine ⟨plainSheet_isPlain, plainSheet_isNamed, css, ?_, rendered, compiled⟩
  have known : (render .expanded 5 plainSheet).toOption.map String.ofList = some
      ("/* head */\n\na > b, c:not(d, e) \x7b\n  font: bold 12px/2 serif, \"x y\";\n" ++
        "  /* in */\n  color: #f0c;\n\x7d\n") := by decide +kernel
  rw [rendered] at known
  exact Option.some.inj known

def singleRule (selectors : List Text) : Node := .rule selectors [.property ['a'] none (.text ['b'])] 0

theorem singleRule_isPlain {selectors : List Text} (nameless : ∀ s ∈ selectors, s = []) :
    (singleRule selectors).IsPlain := by
  have empty : Selector.ReadsAs [] [] :=
    ⟨eq_ok_of_toOption (by decide +kernel), by simp, rfl, rfl, by decide +kernel⟩
  refine ⟨fun s member => ⟨[], ?_⟩, fun s ls l head tokens first => ?_, List.cons_ne_nil _ _, fun n member => ?_⟩
  · rw [nameless s member]
    exact empty
  · rw [nameless s (List.mem_of_head? head), empty.tokens] at tokens
    cases tokens
    cases first
  · obtain rfl := List.mem_singleton.mp member
    refine ⟨eq_ok_of_toOption (by decide +kernel), by decide, by decide, .last _, fun w member => ?_⟩
    obtain rfl := Item.value.inj (List.mem_singleton.mp member)
    exact .inl ⟨eq_ok_of_toOption (by decide +kernel), by decide, by decide⟩

theorem not_compiles_nameless {n : Node}
    (written : (render .expanded 5 [n]).toOption = some " \x7b\n  a: b;\n\x7d\n".toList) :
    ¬∃ css, render .expanded 5 [n] = .ok css ∧ (compile css .expanded 5).result = .ok css := by
  rintro ⟨css, rendered, compiled⟩
  have failed : (compile " \x7b\n  a: b;\n\x7d\n".toList .expanded 5).result.toOption = none := by decide +kernel
  rw [rendered] at written
  obtain rfl := Option.some.inj written
  rw [compiled] at failed
  cases failed

/-- With an empty selector, or none, the css of a plain rule does not compile. -/
theorem compile_render_nameless :
    ((singleRule [[]]).IsPlain ∧ ¬∃ css, render .expanded 5 [singleRule [[]]] = .ok css ∧
        (compile css .expanded 5).result = .ok css) ∧
      (singleRule []).IsPlain ∧ ¬∃ css, render .expanded 5 [singleRule []] = .ok css ∧
        (compile css .expanded 5).result = .ok css := by
  refine ⟨⟨singleRule_isPlain (by simp), not_compiles_nameless (by decide +kernel)⟩, ?_, ?_⟩
  · exact singleRule_isPlain (by simp)
  · exact not_compiles_nameless (by decide +kernel)

end Stylesheet
