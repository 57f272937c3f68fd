import BuildTyping.Proofs.Syntax.Words

/-!
# Statements as words

A list of statements can be laid out in many ways: simple statements share a line or have lines of
their own, a body of simple statements stands on the line of its colon or in a block, and a branch
after another is written with `elif` or in a body of its own.
-/

namespace BuildTyping

namespace Word

def newline : Word := ⟨.newline, ""⟩
def indent : Word := ⟨.indent, ""⟩
def dedent : Word := ⟨.dedent, ""⟩

end Word

/-- The sign of the augmented assignment with this operator. -/
def BinaryOp.assignSign? : BinaryOp → Option Sign
  | add => some .plusAssign
  | subtract => some .minusAssign
  | multiply => some .starAssign
  | divide => some .slashAssign
  | floorDivide => some .slashSlashAssign
  | modulo => some .percentAssign
  | bitOr => some .pipeAssign
  | _ => none

def ParameterKind.words : ParameterKind → List Word
  | normal => []
  | varArgs => [.sign .star]
  | kwArgs => [.sign .starStar]

def Parameter.words (p : Parameter) : List Word :=
  p.kind.words ++ .name p.name :: p.default.elim [] fun value => .sign .assign :: value.words

/-- The words of a simple statement without its end. A statement with a body is not simple. -/
def Form.simple? {σ : Type} : Form σ → Option (List Word)
  | expression value => some value.words
  | assign target value => some (target.words ++ .sign .assign :: value.words)
  | augment op target value =>
    op.assignSign?.map fun s => target.words ++ .sign s :: value.words
  | return_ value => some (.keyword .return_ :: value.elim [] Expr.words)
  | pass => some [.keyword .pass]
  | break_ => some [.keyword .break_]
  | continue_ => some [.keyword .continue_]
  | define _ _ _ | branch _ _ _ | loop _ _ _ => none

namespace Layout

/-- Simple statements on one line, with semicolons between them and one before its end or none. -/
inductive Line : List Stmt → List Word → Prop where
  | last {s : Stmt} {ws : List Word} (simple : s.form.simple? = some ws) :
      Line [s] (ws ++ [.newline])
  | closed {s : Stmt} {ws : List Word} (simple : s.form.simple? = some ws) :
      Line [s] (ws ++ [.sign .semicolon, .newline])
  | more {s : Stmt} {ss : List Stmt} {ws us : List Word} (simple : s.form.simple? = some ws)
      (rest : Line ss us) : Line (s :: ss) (ws ++ .sign .semicolon :: us)

mutual

/-- Lines of simple statements and statements with bodies, one after the other. -/
inductive Block : List Stmt → List Word → Prop where
  | nil : Block [] []
  | line {ss ss' : List Stmt} {ws us : List Word} (first : Line ss ws) (rest : Block ss' us) :
      Block (ss ++ ss') (ws ++ us)
  | compound {s : Stmt} {ss : List Stmt} {ws us : List Word} (first : Compound s ws)
      (rest : Block ss us) : Block (s :: ss) (ws ++ us)

/-- A body: the rest of the line, or a block that is indented. -/
inductive Suite : List Stmt → List Word → Prop where
  | inline {ss : List Stmt} {ws : List Word} (line : Line ss ws) : Suite ss (.sign .colon :: ws)
  | indented {ss : List Stmt} {ws : List Word} (ne : ss ≠ []) (block : Block ss ws) :
      Suite ss (.sign .colon :: .newline :: .indent :: (ws ++ [.dedent]))

/-- A branch after the word that begins it. -/
inductive Branch : Stmt → List Word → Prop where
  | mk {span : Span} {condition : Expr} {body other : List Stmt} {ws us : List Word}
      (suite : Suite body ws) (rest : Other other us) :
      Branch ⟨span, .branch condition body other⟩ (condition.words ++ ws ++ us)

/-- What is done otherwise. -/
inductive Other : List Stmt → List Word → Prop where
  | none : Other [] []
  | elif {s : Stmt} {ws : List Word} (branch : Branch s ws) : Other [s] (.keyword .elif :: ws)
  | else_ {ss : List Stmt} {ws : List Word} (suite : Suite ss ws) :
      Other ss (.keyword .else_ :: ws)

inductive Compound : Stmt → List Word → Prop where
  | define {span : Span} {name : String} {parameters : List Parameter} {body : List Stmt}
      {ws : List Word} (suite : Suite body ws) :
      Compound ⟨span, .define name parameters body⟩ (.keyword .def_ :: .name name ::
        (enclosed .round (separated (parameters.map Parameter.words)) ++ ws))
  | branch {s : Stmt} {ws : List Word} (branch : Branch s ws) : Compound s (.keyword .if_ :: ws)
  | loop {span : Span} {target iterable : Expr} {body : List Stmt} {ws : List Word}
      (suite : Suite body ws) :
      Compound ⟨span, .loop target iterable body⟩
        (.keyword .for_ :: (target.words ++ .keyword .in_ :: (iterable.words ++ ws)))

end

end Layout

end BuildTyping
