import BuildTyping.Proofs.Grammar.Bracketed

/-!
# Operands

The words of an expression begin as an expression does. An operand is read back where it stands,
bare or in the brackets that its place requires.
-/

namespace BuildTyping

namespace Expr

variable {e : Expr} {p : Precedence}

theorem words_eq (e : Expr) : e.words = (e.shape.map phrase).words := by rw [words, phrase_eq]

theorem opens_atLeast (h : Opens e.words) : Opens (e.phrase.atLeast p) := by
  rw [atLeast_eq]
  split
  · exact h
  · exact .enclosed h.plain

theorem opens_above (h : Opens e.words) : Opens (e.phrase.above p) := by
  rw [above_eq]
  split
  · exact h
  · exact .enclosed h.plain

/-- No expression is taken for a keyword argument. -/
theorem opens (e : Expr) : Opens e.words := by
  induction e using inductionOnParts with
  | step e ih =>
    obtain ⟨id, span, shape⟩ := e
    rw [words_eq]
    have hitems {es : List Expr} (h : ∀ e ∈ es, Opens e.words) :
        Plain (separated ((es.map phrase).map Phrase.words)) := by
      refine .separated fun ws hws => ?_
      simp only [List.map_map, List.mem_map] at hws
      obtain ⟨e, he, rfl⟩ := hws
      exact (h e he).plain
    cases shape with
    | literal value =>
      apply Opens.singleton
      cases value with
      | bool b => cases b <;> rfl
      | _ => rfl
    | name label => exact .singleton rfl
    | list elements => exact .enclosed (hitems ih)
    | tuple elements =>
      cases elements with
      | nil => exact .enclosed .nil
      | cons e es =>
        cases es with
        | nil => exact .enclosed (ih e (by simp [Shape.parts])).plain_append
        | cons e' es => exact .enclosed (hitems ih)
    | dict entries =>
      refine .enclosed (.separated fun ws hws => ?_)
      simp only [List.map_map, List.mem_map] at hws
      obtain ⟨entry, he, rfl⟩ := hws
      have hkey : Opens entry.key.words :=
        ih _ (List.mem_flatMap.2 ⟨entry, he, by simp [Entry.parts]⟩)
      exact hkey.plain_append
    | listComp element clauses =>
      exact .enclosed (ih element (by simp [Shape.parts])).plain_append
    | dictComp entry clauses =>
      have hkey : Opens entry.key.words := ih _ (by simp [Shape.parts, Entry.parts])
      refine .enclosed (Opens.plain_append ?_)
      exact hkey.append (.cons (by simp [Word.sign]))
    | call callee arguments =>
      exact (opens_atLeast (ih callee (by simp [Shape.parts]))).append
        (.cons (by simp [Word.opening]))
    | binary op left right =>
      have hleft := ih left (by simp [Shape.parts])
      have hword : Plain (op.words ++ right.phrase.above op.precedence) := by
        cases op <;> exact .cons (by simp [BinaryOp.word, Word.sign, Word.keyword])
      by_cases hp : op = .power
      · subst hp
        exact ((opens_above hleft).append (.cons (by simp [BinaryOp.word, Word.sign]))).append
          (opens_atLeast (ih right (by simp [Shape.parts]))).plain
      · rw [Shape.map, Shape.words_binary hp, List.append_assoc]
        exact (opens_atLeast hleft).append hword
    | unary op operand =>
      exact ⟨_, _, rfl, by rw [UnaryOp.starts_word]; rfl,
        (opens_atLeast (ih operand (by simp [Shape.parts]))).plain⟩
    | member object label =>
      exact (opens_atLeast (ih object (by simp [Shape.parts]))).append
        (.cons (by simp [Word.sign]))
    | index object key =>
      exact (opens_atLeast (ih object (by simp [Shape.parts]))).append
        (.cons (by simp [Word.opening]))
    | slice object lower upper step =>
      exact (opens_atLeast (ih object (by simp [Shape.parts]))).append
        (.cons (by simp [Word.opening]))
    | conditional whenTrue condition whenFalse =>
      exact (opens_above (ih whenTrue (by simp [Shape.parts]))).append
        (.cons (by simp [Word.keyword]))

end Expr

open Parse

namespace Expr.Complete

variable {sub : Precedence → Parse Expr} {n : Nat} {least p : Precedence} {r : Reader}
variable {e : Expr} {w : Word} {ws : List Word} {c : Prop} [Decidable c]

/-- In brackets an expression is read back whatever stands around them. -/
theorem leads_enclosed (he : e.Complete) (hsub : Knows sub r.words.length)
    (hr : r.words = enclosed .round e.words ++ w :: ws) : Leads sub least r e (w :: ws) := by
  rw [enclosed, List.cons_append, List.append_assoc] at hr
  refine Leads.start hr rfl (group_gives e.opens hr fun r' hr' => ?_)
  refine commaList_gives_one (he.gives_lowest hsub ?_ hr' rfl) (by simp [Word.closing])
  simp [hr, hr']

/-- An operand in brackets where it must be. -/
theorem leads_operand (he : e.Complete) (hsub : Knows sub r.words.length)
    (hr : r.words = (if c then e.words else enclosed .round e.words) ++ w :: ws)
    (hlevel : c → least.Admits e.level)
    (hreach : c → Grammar.standard.precedence w.kind ≤ e.level.reach) :
    Leads sub least r e (w :: ws) := by
  split at hr
  · rename_i hc
    exact he hsub hr (hlevel hc) (hreach hc)
  · exact he.leads_enclosed hsub hr

/-- A left operand that may bind as loosely as `p`, where `p` is tighter than all must be. -/
theorem leads_atLeast (he : e.Complete) (hsub : Knows sub r.words.length)
    (hr : r.words = e.phrase.atLeast p ++ w :: ws) (hp : least < p)
    (hreach : p ≤ e.level → Grammar.standard.precedence w.kind ≤ e.level.reach) :
    Leads sub least r e (w :: ws) := by
  rw [atLeast_eq] at hr
  exact he.leads_operand hsub hr (fun h => .inl (Precedence.lt_of_lt_of_le hp h)) hreach

theorem leads_above (he : e.Complete) (hsub : Knows sub r.words.length)
    (hr : r.words = e.phrase.above p ++ w :: ws) (hp : least < p)
    (hreach : p < e.level → Grammar.standard.precedence w.kind ≤ e.level.reach) :
    Leads sub least r e (w :: ws) := by
  rw [above_eq] at hr
  exact he.leads_operand hsub hr
    (fun h => .inl (Precedence.lt_of_lt_of_le hp (Precedence.le_of_lt h))) hreach

theorem gives_operand (he : e.Complete) (hsub : Knows sub n) (hn : r.words.length < n)
    (hr : r.words = (if c then e.words else enclosed .round e.words) ++ w :: ws)
    (hlevel : c → least.Admits e.level)
    (hreach : c → Grammar.standard.precedence w.kind ≤ e.level.reach)
    (hw : Grammar.standard.precedence w.kind ≤ least) :
    Gives (sub least) r (fun e' => e'.bare = e.bare) (w :: ws) := by
  obtain ⟨sub', hsub', heq⟩ := exists_knows r
  obtain ⟨e', r', he', h⟩ := (he.leads_operand hsub' hr hlevel hreach).gives hw
  exact ⟨e', r', by rw [hsub _ _ hn, heq, he'], h⟩

/-- An operand that must bind more tightly than `p` is read where all must. -/
theorem gives_above (he : e.Complete) (hsub : Knows sub n) (hn : r.words.length < n)
    (hr : r.words = e.phrase.above p ++ w :: ws)
    (hreach : p < e.level → Grammar.standard.precedence w.kind ≤ e.level.reach)
    (hw : Grammar.standard.precedence w.kind ≤ p) :
    Gives (sub p) r (fun e' => e'.bare = e.bare) (w :: ws) := by
  rw [above_eq] at hr
  exact he.gives_operand hsub hn hr .inl hreach hw

end Expr.Complete

end BuildTyping
