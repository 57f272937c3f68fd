import BuildTyping.Proofs.Grammar.StmtSame

/-!
# Every parse comes to an end

Each turn of a loop and each step into a part leaves fewer tokens, so the loops and the recursion
of the parser end by themselves: their guards are never met, and the reader never leaves the list
of tokens.
-/

namespace BuildTyping

namespace Parse

open Reader

variable {α : Type} {n : Nat}

/-- A loop without a guard. What its turn number `n` would be is left to `stuck`. -/
def turns (stuck : Parse (List α)) (turn : Parse (Option α)) : Nat → Parse (List α)
  | 0 => stuck
  | n + 1 => do
    match ← turn with
    | some a => return a :: (← turns stuck turn n)
    | none => return []

/-- A loop without a guard that changes a value. -/
def changes (stuck : α → Parse α) (turn : α → Parse (Option α)) : Nat → α → Parse α
  | 0, a => stuck a
  | n + 1, a => do
    match ← turn a with
    | some b => changes stuck turn n b
    | none => return a

/-- Where each turn moves on the guard makes no difference, and there are no more turns than
tokens. -/
theorem turns_same {turn : Parse (Option α)} (h : ∀ r, Ensures turn r InTurn)
    (stuck : Parse (List α)) (n : Nat) : SameBelow n Freely (turns stuck turn n) (many turn) := by
  induction n with
  | zero => exact .zero _ _
  | succ n ih =>
    intro r hn hr
    have hlands := h r hr
    rw [turns, many]
    cases ht : turn r with
    | error fault r' =>
      rw [ht] at hlands
      simp only [Bind.bind, EStateM.bind, ht]
      exact ⟨trivial, hlands⟩
    | ok o r' =>
      rw [ht] at hlands
      obtain ⟨ts, hp, hts⟩ := hlands
      rw [bind_of_ok ht]
      cases o with
      | none => exact ⟨rfl, ts, hp, trivial⟩
      | some a =>
        have hremaining := hp.remaining
        have hlength := List.length_pos_iff.2 (hts rfl)
        obtain ⟨heq, hlands'⟩ := ih r' (by omega) (hp.ended hr)
        simp only [if_pos (show r'.remaining < r.remaining by omega), Bind.bind, EStateM.bind, heq]
        rw [heq] at hlands'
        cases hm : many turn r' with
        | error fault r'' =>
          rw [hm] at hlands'
          exact ⟨rfl, .after hp hlands'⟩
        | ok as r'' =>
          rw [hm] at hlands'
          obtain ⟨us, hp', -⟩ := hlands'
          exact ⟨rfl, ts ++ us, hp.trans hp', trivial⟩

theorem changes_same {turn : α → Parse (Option α)} (h : ∀ a r, Ensures (turn a) r InTurn)
    (stuck : α → Parse α) (n : Nat) (a : α) :
    SameBelow n Freely (changes stuck turn n a) (iterate turn a) := by
  induction n generalizing a with
  | zero => exact .zero _ _
  | succ n ih =>
    intro r hn hr
    have hlands := h a r hr
    rw [changes, iterate]
    cases ht : turn a r with
    | error fault r' =>
      rw [ht] at hlands
      simp only [Bind.bind, EStateM.bind, ht]
      exact ⟨trivial, hlands⟩
    | ok o r' =>
      rw [ht] at hlands
      obtain ⟨ts, hp, hts⟩ := hlands
      rw [bind_of_ok ht]
      cases o with
      | none => exact ⟨rfl, ts, hp, trivial⟩
      | some b =>
        have hremaining := hp.remaining
        have hlength := List.length_pos_iff.2 (hts rfl)
        obtain ⟨heq, hlands'⟩ := ih b r' (by omega) (hp.ended hr)
        simp only [if_pos (show r'.remaining < r.remaining by omega)]
        exact ⟨heq, .after hp hlands'⟩

/-- Such a loop ends with a turn that gives nothing. -/
theorem many_ends {turn : Parse (Option α)} (h : ∀ r, Ensures turn r InTurn) {r r' : Reader}
    (hr : r.Ended) {as : List α} (hm : many turn r = .ok as r') :
    ∃ mid, turn mid = .ok none r' := by
  fun_induction many turn r generalizing as r' with
  | case1 => simp at hm
  | case2 r mid hi =>
    cases hm
    exact ⟨r, hi⟩
  | case3 => simp at hm
  | case4 r a mid hi hlt bs last hm' ih =>
    cases hm
    obtain ⟨ts, hp, -⟩ := (h r).of_ok hr hi
    exact ih (hp.ended hr) hm'
  | case5 r a mid hi hlt =>
    obtain ⟨ts, hp, hts⟩ := (h r).of_ok hr hi
    have hremaining := hp.remaining
    have hlength := List.length_pos_iff.2 (hts rfl)
    omega

/-- The turns of the loops that make lists, and of the loop over operators. -/
inductive Turn (g : Grammar) : (α : Type) → Parse (Option α) → Prop where
  | operator (least : Precedence) (left : Expr) :
    Turn g Expr (extend g (expression g) least left)
  | comma (p : Precedence) : Turn g Expr (commaTurn g (expression g) p)
  | clause : Turn g (Clause Expr) (clauseTurn g (expression g))
  | element : Turn g Expr (itemTurn .square (expression g .lowest))
  | entry : Turn g (Entry Expr) (itemTurn .curly (entry (expression g)))
  | argument : Turn g (Argument Expr) (argumentTurn (expression g))
  | parameter : Turn g (Option Parameter) (parameterTurn (expression g))
  | block : Turn g Stmt (blockTurn (statement g))
  | inline : Turn g Stmt (inlineTurn (statement g))
  | program : Turn g Stmt (programTurn g)

variable {g : Grammar}

theorem exprList_onwards (hg : g.Solid) (r : Reader) :
    Ensures (exprList g (expression g)) r Onwards :=
  SameBelow.ensures (fun _ => commaList_same (fun p => .of_ensures (expression_onwards hg p)) _) r

theorem programTurn_same (hg : g.Solid) : SameBelow n InTurn (programTurn g) (programTurn g) :=
  .get fun _ => .ite (SameBelow.of_ensures (statement_onwards hg)).some .stop

/-- A turn that gives something moves on. -/
theorem Turn.moves (hg : g.Solid) {turn : Parse (Option α)} (h : Turn g α turn) (r : Reader) :
    Ensures turn r InTurn := by
  have hexpr {m : Nat} (p : Precedence) :
      SameBelow m Onwards (expression g p) (expression g p) :=
    .of_ensures (expression_onwards hg p)
  have hstmt {m : Nat} : SameBelow m Onwards (statement g) (statement g) :=
    .of_ensures (statement_onwards hg)
  refine SameBelow.ensures (fun n => ?_) r
  cases h with
  | operator least left =>
    exact fun r hr => extend_same hg hexpr least left r (Nat.lt_succ_of_lt hr)
  | comma p => exact commaTurn_same hexpr p
  | clause => exact clauseTurn_same hexpr
  | element => exact itemTurn_same _ (hexpr _)
  | entry => exact itemTurn_same _ (entry_same hexpr)
  | argument => exact argumentTurn_same hexpr
  | parameter => exact parameterTurn_same hexpr
  | block => exact blockTurn_same hstmt
  | inline => exact inlineTurn_same hstmt
  | program => exact programTurn_same hg

end Parse

open Parse

/-- What keeps the parser from running forever. -/
structure Grammar.Terminates (g : Grammar) : Prop where
  expression : ∀ p r, Ensures (expression g p) r Onwards
  exprList : ∀ r, Ensures (exprList g (BuildTyping.expression g)) r Onwards
  statement : ∀ r, Ensures (statement g) r Onwards
  /-- A turn of a loop fails, or is the last and gives nothing, or moves on. -/
  turn : ∀ {α turn}, Turn g α turn → ∀ r, Ensures turn r InTurn
  /-- A loop has no more turns than there are tokens. -/
  loop : ∀ {α turn}, Turn g α turn → ∀ stuck n, SameBelow n Freely (turns stuck turn n) (many turn)
  operators : ∀ least stuck n left, SameBelow n Freely
    (changes stuck (extend g (BuildTyping.expression g) least) n left)
    (iterate (extend g (BuildTyping.expression g) least) left)
  /-- Expressions are not nested as deep as there are tokens. -/
  expressions : ∀ stuck n p, SameBelow n Onwards (nested g stuck n p) (BuildTyping.expression g p)
  /-- Statements are not nested as deep as there are tokens. -/
  statements : ∀ stuck n r, r.remaining < n →
    Same Onwards (nestedStatement g stuck n (g.statements r.current.kind))
      (BuildTyping.statement g) r
  /-- Whether the parse succeeds or not, the reader is at a token of the list, and no further than
  the last one, which marks the end. -/
  cursor : ∀ tokens file, ∃ ts r', (Reader.start tokens file).Passes ts r' ∧ r'.Ended ∧
    ((∃ p, program g file (Reader.start tokens file) = .ok p r' ∧ r'.current.kind = .endOfSource) ∨
      ∃ fault, program g file (Reader.start tokens file) = .error fault r')

theorem program_lands {g : Grammar} (hg : g.Solid) (file : String) (r : Reader) :
    Ensures (program g file) r fun _ _ r' => r'.current.kind = .endOfSource := by
  intro hr
  have hturn := Turn.moves hg .program
  have hmany : SameBelow (r.remaining + 1) Freely (many (programTurn g)) (many (programTurn g)) :=
    (programTurn_same hg).many
  have hrun : program g file = many (programTurn g) >>= fun ss => get >>= fun last =>
      pure ⟨ss, last.current.span.stop, file⟩ := rfl
  rw [hrun]
  cases hm : many (programTurn g) r with
  | error fault r' =>
    have hlands := (hmany r (Nat.lt_succ_self _) hr).2
    rw [hm] at hlands
    simp only [Bind.bind, EStateM.bind, hm]
    exact hlands
  | ok ss r' =>
    obtain ⟨ts, hp, -⟩ := ((hmany r (Nat.lt_succ_self _)).ensures).of_ok hr hm
    obtain ⟨mid, hmid⟩ := many_ends hturn hr hm
    rw [bind_of_ok hm]
    refine ⟨ts, hp, ?_⟩
    rw [programTurn, get_bind_run] at hmid
    split at hmid
    · obtain ⟨s, -, hs⟩ := map_ok.1 hmid
      cases hs
    · rename_i hno
      cases hmid
      simpa [Reader.hasTokens] using hno

theorem Grammar.Solid.terminates {g : Grammar} (hg : g.Solid) : g.Terminates where
  expression := expression_onwards hg
  exprList := exprList_onwards hg
  statement := statement_onwards hg
  turn h := h.moves hg
  loop h := turns_same (h.moves hg)
  operators least stuck n left :=
    changes_same (fun left => Turn.moves hg (.operator least left)) stuck n left
  expressions := nested_same hg
  statements stuck n r hn :=
    nestedStatement_same hg stuck n hn (kind_ne_endOfSource_of_statements hg)
  cursor tokens file := by
    have hr := Reader.ended_start tokens file
    have hlands := program_lands hg file (Reader.start tokens file) hr
    cases hrun : program g file (Reader.start tokens file) with
    | ok p r' =>
      rw [hrun] at hlands
      obtain ⟨ts, hp, hk⟩ := hlands
      exact ⟨ts, r', hp, hp.ended hr, .inl ⟨p, rfl, hk⟩⟩
    | error fault r' =>
      rw [hrun] at hlands
      obtain ⟨ts, hp⟩ := hlands
      exact ⟨ts, r', hp, hp.ended hr, .inr ⟨fault, rfl⟩⟩

/-- With the grammar of build files every list of tokens is parsed in finitely many steps. -/
theorem Grammar.standard_terminates : Grammar.standard.Terminates :=
  Grammar.standard_solid.terminates

end BuildTyping
