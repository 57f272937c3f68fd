import BuildTyping.Proofs.Grammar.Tree
import BuildTyping.Syntax.Stmt

/-!
# Statement trees over tokens

A statement is read from consecutive tokens: those of its expressions, those of the statements
within it, tokens of its own between them, and tokens that end it and lie outside its span.
-/

namespace BuildTyping

mutual

/-- The statement is read from the tokens `ts`, and its expressions have the ids from `n` up to
`n'`. The tokens at its end are not covered by it. -/
inductive StmtTree : List Token → Nat → Stmt → Nat → Prop where
  | node {own own' ts us ending : List Token} {n mid n' : Nat} {form : Form Stmt}
      (exprs : Forest own ts n form.exprs mid) (bodies : StmtForest own' us mid form.bodies n')
      (ne : ts ≠ []) : StmtTree (ts ++ us ++ ending) n ⟨cover (ts ++ us), form⟩ n'

/-- The statements are read from the tokens `ts`, but for the tokens `own` between them. -/
inductive StmtForest : List Token → List Token → Nat → List Stmt → Nat → Prop where
  | nil (n : Nat) : StmtForest [] [] n [] n
  | own {own ts : List Token} {n n' : Nat} {ss : List Stmt} (t : Token)
      (rest : StmtForest own ts n ss n') : StmtForest (t :: own) (t :: ts) n ss n'
  | tree {own ts us : List Token} {n mid n' : Nat} {s : Stmt} {ss : List Stmt}
      (first : StmtTree ts n s mid) (rest : StmtForest own us mid ss n') :
      StmtForest own (ts ++ us) n (s :: ss) n'

end

/-- Tokens alone are a forest without trees. -/
theorem Forest.ofTokens (n : Nat) : (ts : List Token) → Forest ts ts n [] n
  | [] => .nil n
  | t :: ts => .own t (ofTokens n ts)

namespace Forest

theorem ne_nil {own ts : List Token} {n n' : Nat} {es : List Expr} (h : Forest own ts n es n')
    (ne : own ≠ [] ∨ es ≠ []) : ts ≠ [] := by
  cases h with
  | nil => simp at ne
  | own t rest => simp
  | tree first rest => simp [first.ne_nil]

theorem count_eq : ∀ {own ts : List Token} {n n' : Nat}, Forest own ts n [] n' → n = n'
  | _, _, _, _, .nil _ => rfl
  | _, _, _, _, .own _ rest => rest.count_eq

/-- A forest without trees is its own tokens. -/
theorem stmtForest : ∀ {own ts : List Token} {n n' : Nat}, Forest own ts n [] n' →
    StmtForest own ts n [] n'
  | _, _, _, _, .nil n => .nil n
  | _, _, _, _, .own t rest => .own t rest.stmtForest

end Forest

namespace StmtForest

theorem append {own' us : List Token} {mid n' : Nat} {ss' : List Stmt}
    (h' : StmtForest own' us mid ss' n') : ∀ {own ts : List Token} {n : Nat} {ss : List Stmt},
      StmtForest own ts n ss mid → StmtForest (own ++ own') (ts ++ us) n (ss ++ ss') n'
  | _, _, _, _, .nil _ => h'
  | _, _, _, _, .own t rest => .own t (append h' rest)
  | _, _, _, _, .tree first rest => by
    rw [List.append_assoc]
    exact .tree first (append h' rest)

end StmtForest

mutual

/-- The outermost expressions of a statement stand in its tokens one after the other. -/
theorem StmtTree.roots : ∀ {ts : List Token} {n n' : Nat} {s : Stmt},
    StmtTree ts n s n' → ∃ own, Forest own ts n s.roots n'
  | _, _, _, _, @StmtTree.node _ _ _ _ ending _ _ _ _ exprs bodies _ => by
    obtain ⟨own, hbodies⟩ := bodies.roots
    have h := (Forest.ofTokens _ ending).append (hbodies.append exprs)
    rw [List.append_nil] at h
    rw [Stmt.roots_eq]
    exact ⟨_, h⟩

theorem StmtForest.roots : ∀ {own ts : List Token} {n n' : Nat} {ss : List Stmt},
    StmtForest own ts n ss n' → ∃ own, Forest own ts n (ss.flatMap Stmt.roots) n'
  | _, _, _, _, _, .nil n => ⟨[], .nil n⟩
  | _, _, _, _, _, .own t rest => by
    obtain ⟨own, h⟩ := rest.roots
    exact ⟨t :: own, .own t h⟩
  | _, _, _, _, _, .tree first rest => by
    obtain ⟨own, h⟩ := first.roots
    obtain ⟨own', h'⟩ := rest.roots
    exact ⟨own ++ own', h'.append h⟩

end

namespace Reader

variable {r mid last r' r'' : Reader} {own own' ending : List Token} {ss ss' : List Stmt}

/-- The reader goes past the trees of the statements and past tokens `own` between them. -/
def Stacks (r : Reader) (own : List Token) (ss : List Stmt) (r' : Reader) : Prop :=
  ∃ ts, r.Passes ts r' ∧ StmtForest own ts r.count ss r'.count

theorem Gathers.stacks (h : r.Gathers own [] r') : r.Stacks own [] r' := by
  obtain ⟨ts, hp, hf⟩ := h
  exact ⟨ts, hp, hf.stmtForest⟩

namespace Stacks

theorem refl (r : Reader) : r.Stacks [] [] r := (Gathers.refl r).stacks

theorem trans (h : r.Stacks own ss r') (h' : r'.Stacks own' ss' r'') :
    r.Stacks (own ++ own') (ss ++ ss') r'' := by
  obtain ⟨ts, hp, hf⟩ := h
  obtain ⟨us, hp', hf'⟩ := h'
  exact ⟨ts ++ us, hp.trans hp', hf'.append hf⟩

theorem ended (h : r.Stacks own ss r') (hr : r.Ended) : r'.Ended := by
  obtain ⟨ts, hp, -⟩ := h
  exact hp.ended hr

/-- The outermost expressions of the statements are gathered. -/
theorem gathers (h : r.Stacks own ss r') : ∃ own, r.Gathers own (ss.flatMap Stmt.roots) r' := by
  obtain ⟨ts, hp, hf⟩ := h
  obtain ⟨own, hroots⟩ := hf.roots
  exact ⟨own, ts, hp, hroots⟩

/-- A statement whose span ends where the statements within it do. -/
theorem stmt {span : Span} {form : Form Stmt} (exprs : r.Gathers own form.exprs mid)
    (ne : own ≠ [] ∨ form.exprs ≠ []) (bodies : mid.Stacks own' form.bodies last)
    (hspan : span = last.spanFrom r.current.span.start) (hend : last.Gathers ending [] r') :
    r.Stacks [] [⟨span, form⟩] r' := by
  obtain ⟨ts, hp, hf⟩ := exprs
  obtain ⟨us, hp', hf'⟩ := bodies
  obtain ⟨vs, hp'', hf''⟩ := hend
  have hts := hf.ne_nil ne
  refine ⟨ts ++ us ++ vs, (hp.trans hp').trans hp'', ?_⟩
  rw [hspan, (hp.trans hp').spanFrom (by simp [hts])]
  have htree := StmtForest.tree (@StmtTree.node _ _ _ _ vs _ _ _ _ hf hf' hts) (.nil last.count)
  rwa [List.append_nil, hf''.count_eq] at htree

end Stacks

end Reader

end BuildTyping
