import BuildTyping.Proofs.Grammar.ExprLockstep
import BuildTyping.Proofs.Grammar.Statement
import BuildTyping.Proofs.Syntax.Extends

/-!
# Statements side by side

Two parses of a statement agree, or the lines in common end in it. Then the first one is complete
there and the other one goes on at its end.
-/

namespace BuildTyping

namespace Fork

open Reader

variable {F : Fork} {r q r' q' : Reader}

/-- The expression is behind the lines in common. -/
def Later (F : Fork) (e : Expr) : Prop := F.offset ≤ e.span.start.offset

theorem mem_ahead_of_next {t : Token} (h : t ∈ r.next.ahead) : t ∈ r.ahead := by
  unfold Reader.next at h
  split at h
  · exact h
  · rename_i u us hu
    exact List.mem_cons_of_mem _ (by rwa [hu])

/-- Closing tokens may be passed. -/
theorem Parted.next (h : F.Parted r q) : F.Parted r.next q where
  closing := fun t ht => h.closing t (mem_ahead_of_next ht)
  ended := h.ended
  le_start := h.le_start
  apart := h.apart

/-- What the other reader goes past is behind the lines in common. -/
theorem Parted.of_stacks {own : List Token} {ss : List Stmt} (h : F.Parted r q)
    (hs : q.Stacks own ss q') : F.Parted r q' ∧ ∀ e ∈ ss.flatMap Stmt.roots, F.Later e := by
  obtain ⟨own', ts, hp, hf⟩ := hs.gathers
  refine ⟨⟨h.closing, hp.ended h.ended, ?_, h.apart⟩, ?_⟩
  · intro t ht
    exact h.le_start t (by rw [hp.ahead]; exact List.mem_append_right ts ht)
  · intro e he
    obtain ⟨t, ht, hstart⟩ := hf.start_mem he
    rw [Later, ← hstart]
    exact h.le_start t (by rw [hp.ahead]; exact List.mem_append_left _ ht)

end Fork

namespace Parse

open Reader Fork

variable {α β : Type} {F : Fork} {x y : Parse α} {r q : Reader}

/-- The readers stop together with the same result, or where they part the second result goes on
from the first one. -/
def Follows (F : Fork) (goes : α → α → Prop) (a : α) (r : Reader) (b : α) (q : Reader) : Prop :=
  b = a ∧ F.Together r q ∧ r.Fresh ∨ goes a b ∧ F.Parted r q

/-- From readers that are together the second parse follows the first one. -/
def Grows (F : Fork) (goes : α → α → Prop) (x y : Parse α) : Prop :=
  ∀ ⦃r q⦄, F.Together r q → r.Fresh → Meets (Follows F goes) x r y q

/-- The second statement goes on from the first one behind the lines in common. -/
abbrev StmtGoes (F : Fork) : Stmt → Stmt → Prop := Stmt.Extends F.Later

abbrev BlockGoes (F : Fork) : List Stmt → List Stmt → Prop := Stmt.BlockExtends F.Later

theorem expr_keeps (p : Precedence) :
    Keeps F (expression .standard p) (expression .standard p) := expression_keeps p

theorem statementEnd_meets (h : F.Together r q) :
    Meets (Follows F fun _ _ => True) statementEnd r statementEnd q := by
  have newline {r q : Reader} (h : F.Together r q) (hk : r.current.kind = .newline) :
      Meets (Follows F fun _ _ => True) (advance >>= fun _ => pure ()) r
        (advance >>= fun _ => pure ()) q :=
    .advance_line h hk (fun h1 hf1 => .pure (.inl ⟨rfl, h1, hf1⟩)) fun h1 =>
      .pure (.inr ⟨trivial, h1⟩)
  refine .kind h ?_
  cases hk : r.current.kind with
  | sign sign =>
    cases sign with
    | semicolon =>
      refine .advance h (by rw [hk]; rfl) fun h1 hf1 => .kind h1 (.ite (newline h1) fun _ => ?_)
      exact .pure (.inl ⟨rfl, h1, hf1⟩)
    | _ => exact .unmet
  | newline => exact newline h hk
  | endOfSource | dedent => exact .pure (.inl ⟨rfl, h, .of_kind (by simp [hk])⟩)
  | _ => exact .unmet

/-- The end of a simple statement. -/
theorem finish_meets (s : Stmt) (h : F.Together r q) :
    Meets (Follows F (StmtGoes F)) (statementEnd >>= fun _ => pure s) r
      (statementEnd >>= fun _ => pure s) q := by
  refine (statementEnd_meets h).bind ?_
  rintro _ r1 _ q1 (⟨-, h1, hf1⟩ | ⟨-, h1⟩)
  · exact .pure (.inl ⟨rfl, h1, hf1⟩)
  · exact .pure (.inr ⟨.refl s, h1⟩)

theorem checkTarget_meets {target : Expr} :
    Meets (fun _ r' _ q' => r' = r ∧ q' = q) (checkTarget target) r (checkTarget target) q :=
  fun _ _ _ _ hx hy => ⟨checkTarget_ok hx, checkTarget_ok hy⟩

theorem simpleForm_agrees {first : Expr} (h : F.Together r q) :
    Agrees F (simpleForm .standard (expression .standard) first) r
      (simpleForm .standard (expression .standard) first) q := by
  refine .kind h ?_
  cases hk : r.current.kind with
  | sign sign =>
    refine .ite (fun _ => ?_) fun _ => .ite (fun _ => ?_) fun _ => Agrees.pure h
    · refine .advance h (by rw [hk]; rfl) fun h1 hf1 => checkTarget_meets.bind ?_
      rintro _ _ _ _ ⟨rfl, rfl⟩
      exact (exprList_keeps expr_keeps h1 hf1).bind fun value r2 q2 h2 => Agrees.pure h2
    · refine .advance h (by rw [hk]; rfl) fun h1 hf1 => ?_
      cases BinaryOp.ofKind? r.current.kind with
      | none => exact .unexpected
      | some op =>
        refine .ite (fun _ => ?_) fun _ => .throw
        exact (exprList_keeps expr_keeps h1 hf1).bind fun value r2 q2 h2 => Agrees.pure h2
  | _ => exact Agrees.pure h

theorem simple_grows : Grows F (StmtGoes F) (simple .standard (expression .standard))
    (simple .standard (expression .standard)) := by
  intro r q h hf
  refine .get ?_
  rw [h.current]
  refine (exprList_keeps expr_keeps h hf).bind fun first r1 q1 h1 => ?_
  refine (simpleForm_agrees h1).bind fun form r2 q2 h2 => .spanFrom h2 fun span => ?_
  exact finish_meets _ h2

section Bodies

variable {stmt stmt' : Parse Stmt}

/-- Of two optional results both are there, and the second goes on from the first. -/
def SomeGoes (F : Fork) (o o' : Option Stmt) : Prop :=
  ∃ s s', o = some s ∧ o' = some s' ∧ StmtGoes F s s'

theorem Follows.some {s s' : Stmt} (h : Follows F (StmtGoes F) s r s' q) :
    Follows F (SomeGoes F) (some s) r (some s') q := by
  rcases h with ⟨rfl, h⟩ | ⟨hs, h⟩
  · exact .inl ⟨rfl, h⟩
  · exact .inr ⟨⟨s, s', rfl, rfl, hs⟩, h⟩

/-- Where only closing tokens are ahead a loop that can not start there ends. -/
theorem many_closing {item : Parse (Option α)} {as : List α}
    (hclosed : ∀ ⦃r o r'⦄, Closing r.ahead → item r = .ok o r' → o = none ∧ r' = r)
    {r r' : Reader} (hr : Closing r.ahead) (h : many item r = .ok as r') : as = [] ∧ r' = r := by
  rcases many_cases h with ⟨hi, rfl⟩ | ⟨a, mid, others, hi, -⟩
  · exact ⟨rfl, (hclosed hr hi).2⟩
  · cases (hclosed hr hi).1

/-- After the readers have parted the first loop is at its end, and all that the second one reads
is behind the lines in common. Either may have ended with its last turn. -/
theorem many_parted {item item' : Parse (Option Stmt)} {ss ss' : List Stmt} {r' q' : Reader}
    (hclosed : ∀ ⦃r o r'⦄, Closing r.ahead → item r = .ok o r' → o = none ∧ r' = r)
    (hstacked : Stacked item' fun o => o.elim [] fun s => [s]) (h : F.Parted r q)
    (hx : many item r = .ok ss r' ∨ ss = [] ∧ r' = r)
    (hy : many item' q = .ok ss' q' ∨ ss' = [] ∧ q' = q) :
    ss = [] ∧ F.Parted r' q' ∧ ∀ e ∈ ss'.flatMap Stmt.roots, F.Later e := by
  have hafter : ∃ own, q.Stacks own ss' q' := by
    rcases hy with hy | ⟨rfl, rfl⟩
    · simpa using hstacked.many h.ended hy
    · exact ⟨[], .refl _⟩
  obtain ⟨rfl, rfl⟩ := hx.elim (many_closing hclosed h.closing) id
  obtain ⟨own, hstacks⟩ := hafter
  exact ⟨rfl, h.of_stacks hstacks⟩

/-- A loop over statements stops where the readers part, and the other one may go on. -/
theorem many_grows {item item' : Parse (Option Stmt)} (hitem : Grows F (SomeGoes F) item item')
    (hclosed : ∀ ⦃r o r'⦄, Closing r.ahead → item r = .ok o r' → o = none ∧ r' = r)
    (hstacked : Stacked item' fun o => o.elim [] fun s => [s]) :
    Grows F (BlockGoes F) (many item) (many item') := by
  intro r
  induction hn : r.remaining using Nat.strongRecOn generalizing r with
  | ind n ih =>
    subst hn
    intro q h hf ss r' ss' q' hx hy
    rcases many_cases hx with ⟨hi, rfl⟩ | ⟨s, mid, others, hi, rfl, hmore⟩
    · rcases many_cases hy with ⟨hi', rfl⟩ | ⟨s', mid', others', hi', -⟩
      · rcases hitem h hf hi hi' with ⟨-, h'⟩ | ⟨⟨s, s', hs, -⟩, -⟩
        · exact .inl ⟨rfl, h'⟩
        · cases hs
      · rcases hitem h hf hi hi' with ⟨heq, -⟩ | ⟨⟨s, s', hs, -⟩, -⟩
        · cases heq
        · cases hs
    · rcases many_cases hy with ⟨hi', rfl⟩ | ⟨s', mid', others', hi', rfl, hmore'⟩
      · rcases hitem h hf hi hi' with ⟨heq, -⟩ | ⟨⟨s, s', -, hs, -⟩, -⟩
        · cases heq
        · cases hs
      · rcases hitem h hf hi hi' with ⟨heq, hmid, hfmid⟩ | ⟨⟨_, _, hs, hs', hgoes⟩, hmid⟩
        · cases heq
          simp only [h.remaining_lt_iff hmid] at hmore'
          split at hmore
          · rename_i hlt
            rw [if_pos hlt] at hmore'
            rcases ih _ hlt rfl hmid hfmid hmore hmore' with ⟨rfl, h'⟩ | ⟨hgoes, h'⟩
            · exact .inl ⟨rfl, h'⟩
            · exact .inr ⟨.cons s hgoes, h'⟩
          · rename_i hlt
            rw [if_neg hlt] at hmore'
            obtain ⟨rfl, rfl⟩ := hmore
            obtain ⟨rfl, rfl⟩ := hmore'
            exact .inl ⟨rfl, hmid, hfmid⟩
        · cases hs
          cases hs'
          obtain ⟨rfl, h', hlater⟩ := many_parted hclosed hstacked hmid
            ((ite_prop_iff_or.1 hmore).imp And.right And.right)
            ((ite_prop_iff_or.1 hmore').imp And.right And.right)
          exact .inr ⟨.last hgoes hlater, h'⟩

theorem closing_current {r : Reader} (h : Closing r.ahead) :
    r.current.kind = .dedent ∨ r.current.kind = .endOfSource :=
  h r.current (by simp [ahead])

theorem blockTurn_closing {r r' : Reader} {o : Option Stmt} (hr : Closing r.ahead)
    (h : blockTurn stmt r = .ok o r') : o = none ∧ r' = r := by
  rw [blockTurn, inBody, bind_assoc, kind_bind_run, pure_bind_run] at h
  split at h
  · rename_i hc
    rcases closing_current hr with hk | hk <;> simp [hk] at hc
  · cases h
    exact ⟨rfl, rfl⟩

theorem inlineTurn_closing {r r' : Reader} {o : Option Stmt} (hr : Closing r.ahead)
    (h : inlineTurn stmt r = .ok o r') : o = none ∧ r' = r := by
  simp only [inlineTurn, get_bind_run, inBody, bind_assoc, kind_bind_run, pure_bind_run] at h
  split at h
  · rename_i hc
    rcases closing_current hr with hk | hk <;> simp [hk] at hc
  · cases h
    exact ⟨rfl, rfl⟩

theorem blockTurn_grows (hstmt : Grows F (StmtGoes F) stmt stmt') :
    Grows F (SomeGoes F) (blockTurn stmt) (blockTurn stmt') := by
  intro r q h hf
  simp only [blockTurn, inBody, bind_assoc, pure_bind]
  refine .kind h (.ite (fun _ => ?_) fun _ => .pure (.inl ⟨rfl, h, hf⟩))
  exact (hstmt h hf).map fun _ _ _ _ h' => h'.some

theorem inlineTurn_grows (hstmt : Grows F (StmtGoes F) stmt stmt') :
    Grows F (SomeGoes F) (inlineTurn stmt) (inlineTurn stmt') := by
  intro r q h hf
  simp only [inlineTurn, inBody, bind_assoc, pure_bind]
  refine .get ?_
  rw [previous?, previous?, h.consumed]
  refine .kind h (.ite (fun _ => ?_) fun _ => .pure (.inl ⟨rfl, h, hf⟩))
  exact (hstmt h hf).map fun _ _ _ _ h' => h'.some

/-- Once the readers have parted each block is closed for itself. -/
theorem closed_meets {ss ss' : List Stmt} (hgoes : BlockGoes F ss ss') (h : F.Parted r q) :
    Meets (Follows F (BlockGoes F)) (expect .dedent >>= fun _ => pure ss) r
      (expect .dedent >>= fun _ => pure ss') q := by
  intro _ r' _ q' hx hy
  obtain ⟨t, mid, ht, hx⟩ := bind_ok.1 hx
  obtain ⟨t', mid', ht', hy⟩ := bind_ok.1 hy
  obtain ⟨-, -, rfl⟩ := expect_ok.1 ht
  obtain ⟨hk, -, rfl⟩ := expect_ok.1 ht'
  cases hx
  cases hy
  have hpast := (Gathers.next h.ended (by simp [hk])).stacks
  exact .inr ⟨hgoes, (h.next.of_stacks hpast).1⟩

/-- A body goes on if it is not closed before the readers part. -/
theorem body_meets (hstmt : Grows F (StmtGoes F) stmt stmt')
    (hstacked : Stacked stmt' fun s => [s]) (h : F.Together r q) :
    Meets (Follows F (BlockGoes F)) (body stmt) r (body stmt') q := by
  refine .expectFor h rfl fun h1 hf1 => .kind h1 (.ite (fun hn => ?_) fun _ => ?_)
  · refine .advance_line h1 hn (fun h2 _ => .expectFor h2 rfl fun h3 hf3 => ?_) fun h2 => ?_
    · refine Meets.bind (many_grows (blockTurn_grows hstmt) (fun _ _ _ => blockTurn_closing)
        (blockTurn_stacked hstacked) h3 hf3) ?_
      rintro ss r4 ss' q4 (⟨rfl, h4, -⟩ | ⟨hgoes, h4⟩)
      · exact .expect h4 rfl fun h5 hf5 => .pure (.inl ⟨rfl, h5, hf5⟩)
      · exact closed_meets hgoes h4
    · refine .failed fun ss r' hx => ?_
      obtain ⟨t, mid, ht, -⟩ := bind_ok.1 hx
      obtain ⟨hk, -⟩ := expectFor_ok.1 ht
      rcases closing_current h2.closing with hc | hc <;> simp [hc] at hk
  · refine (hstmt h1 hf1).bind ?_
    rintro first r2 first' q2 (⟨rfl, h2, hf2⟩ | ⟨hgoes, h2⟩)
    · refine Meets.bind (many_grows (inlineTurn_grows hstmt) (fun _ _ _ => inlineTurn_closing)
        (inlineTurn_stacked hstacked) h2 hf2) ?_
      rintro others r3 others' q3 (⟨rfl, h3⟩ | ⟨hgoes, h3⟩)
      · exact .pure (.inl ⟨rfl, h3⟩)
      · exact .pure (.inr ⟨.cons _ hgoes, h3⟩)
    · intro ss r' ss' q' hx hy
      obtain ⟨others, mid, hm, hlast⟩ := bind_ok.1 hx
      obtain ⟨others', mid', hm', hlast'⟩ := bind_ok.1 hy
      obtain ⟨rfl, h3, hlater⟩ := many_parted (fun _ _ _ => inlineTurn_closing)
        (inlineTurn_stacked hstacked) h2 (.inl hm) (.inl hm')
      cases hlast
      cases hlast'
      exact .inr ⟨.last hgoes hlater, h3⟩

/-- A statement that ends with its last body. -/
theorem compound_meets {x y : Parse (List Stmt)} {start : Position} {form : List Stmt → Form Stmt}
    (hform : ∀ {span span' ss ss'}, BlockGoes F ss ss' →
      StmtGoes F ⟨span, form ss⟩ ⟨span', form ss'⟩)
    (h : Meets (Follows F (BlockGoes F)) x r y q) :
    Meets (Follows F (StmtGoes F)) (do
      let ss ← x
      return ⟨← spanFrom start, form ss⟩) r (do
      let ss ← y
      return ⟨← spanFrom start, form ss⟩) q := by
  refine h.bind ?_
  rintro ss r1 ss' q1 (⟨rfl, h1, hf1⟩ | ⟨hgoes, h1⟩)
  · exact .spanFrom h1 fun span => .pure (.inl ⟨rfl, h1, hf1⟩)
  · intro s r' s' q' hx hy
    cases hx
    cases hy
    exact .inr ⟨hform hgoes, h1⟩

theorem default_agrees (h : F.Together r q) :
    Agrees F (default? (expression .standard)) r (default? (expression .standard)) q := by
  refine .kind h (.ite (fun hk => ?_) fun _ => Agrees.pure h)
  exact .advance h (by rw [hk]; rfl) fun h1 hf1 => (expr_keeps _ h1 hf1).map

theorem parameterKind_agrees (h : F.Together r q) :
    Agrees F parameterKind r parameterKind q := by
  refine .kind h ?_
  cases hk : r.current.kind with
  | sign sign =>
    cases sign with
    | star | starStar => exact .advance h (by rw [hk]; rfl) fun h1 _ => Agrees.pure h1
    | _ => exact Agrees.pure h
  | _ => exact Agrees.pure h

theorem parameter_agrees (h : F.Together r q) :
    Agrees F (parameter (expression .standard)) r (parameter (expression .standard)) q := by
  refine .get ?_
  rw [h.current]
  refine (parameterKind_agrees h).bind fun paramKind r1 q1 h1 =>
    .kind h1 (.ite (fun _ => ?_) fun _ => ?_)
  · refine .kind h1 (.ite (fun hk => ?_) fun _ => Agrees.pure h1)
    exact .advance h1 (by rw [hk]; rfl) fun h2 _ => Agrees.pure h2
  · refine .expectFor h1 rfl fun h2 _ => ?_
    have finish {value : Option Expr} {r3 q3 : Reader} (h3 : F.Together r3 q3) :
        Agrees F (do
          let span ← spanFrom r.current.span.start
          separator "expected `,` or `)` in parameter list"
          return some ⟨r1.current.value, paramKind, value, span⟩ : Parse (Option Parameter)) r3 (do
          let span ← spanFrom r.current.span.start
          separator "expected `,` or `)` in parameter list"
          return some ⟨r1.current.value, paramKind, value, span⟩) q3 :=
      .spanFrom h3 fun span => (separator_meets h3).bind fun _ _ _ _ h4 => Agrees.pure h4.1
    refine .ite (fun _ => ?_) fun _ => finish h2
    exact (default_agrees h2).bind fun value r3 q3 h3 => finish h3

theorem define_meets (hstmt : Grows F (StmtGoes F) stmt stmt')
    (hstacked : Stacked stmt' fun s => [s]) (h : F.Together r q)
    (hk : r.current.kind.isPlain = true) :
    Meets (Follows F (StmtGoes F)) (define (expression .standard) stmt) r
      (define (expression .standard) stmt') q := by
  refine .advance h hk fun h1 _ => .expectFor h1 rfl fun h2 _ => .expect h2 rfl fun h3 _ => ?_
  refine Agrees.bind (.many (fun r q h => ?_) h3) fun parameters r4 q4 h4 => ?_
  · exact .kind h (.ite (fun _ => Agrees.pure h) fun _ => (parameter_agrees h).map)
  · exact .expect h4 rfl fun h5 _ => compound_meets .define (body_meets hstmt hstacked h5)

theorem return_meets (h : F.Together r q) (hk : r.current.kind.isPlain = true) :
    Meets (Follows F (StmtGoes F)) (return_ .standard (expression .standard)) r
      (return_ .standard (expression .standard)) q := by
  refine .advance h hk fun h1 hf1 => .kind h1 ?_
  have finish (value : Option Expr) {r2 q2 : Reader} (h2 : F.Together r2 q2) :
      Meets (Follows F (StmtGoes F)) (do
        let span ← spanFrom r.current.span.start
        statementEnd
        return ⟨span, .return_ value⟩ : Parse Stmt) r2 (do
        let span ← spanFrom r.current.span.start
        statementEnd
        return ⟨span, .return_ value⟩) q2 :=
    .spanFrom h2 fun span => finish_meets _ h2
  have absent := finish none h1
  have value : Agrees F (some <$> exprList .standard (expression .standard)) r.next
      (some <$> exprList .standard (expression .standard)) q.next :=
    (exprList_keeps expr_keeps h1 hf1).map
  have present := value.bind fun o _ _ h2 => finish o h2
  cases r.next.current.kind with
  | newline | endOfSource | dedent => exact absent
  | sign sign =>
    cases sign with
    | semicolon => exact absent
    | _ => exact present
  | _ => exact present

theorem loop_meets (hstmt : Grows F (StmtGoes F) stmt stmt')
    (hstacked : Stacked stmt' fun s => [s]) (h : F.Together r q)
    (hk : r.current.kind.isPlain = true) :
    Meets (Follows F (StmtGoes F)) (loop .standard (expression .standard) stmt) r
      (loop .standard (expression .standard) stmt') q := by
  refine .advance h hk fun h1 hf1 => ?_
  refine (targetList_keeps expr_keeps h1 hf1).bind fun target r2 q2 h2 => checkTarget_meets.bind ?_
  rintro _ _ _ _ ⟨rfl, rfl⟩
  refine .expectFor h2 rfl fun h3 hf3 => (exprList_keeps expr_keeps h3 hf3).bind ?_
  exact fun iterable r4 q4 h4 => compound_meets .loop (body_meets hstmt hstacked h4)

theorem word_meets (h : F.Together r q) (hk : r.current.kind.isPlain = true) :
    Meets (Follows F (StmtGoes F)) word r word q := by
  refine .advance h hk fun h1 _ => ?_
  cases r.current.kind with
  | keyword word =>
    cases word with
    | pass | break_ | continue_ => exact finish_meets _ h1
    | _ => exact .unexpected
  | _ => exact .unexpected

section Branch

variable {elif elif' : Parse Stmt}

theorem otherwise_grows (hstmt : Grows F (StmtGoes F) stmt stmt')
    (hstacked : Stacked stmt' fun s => [s])
    (helif : ∀ ⦃r q⦄, F.Together r q → r.Fresh → r.current.kind = .keyword .elif →
      Meets (Follows F (StmtGoes F)) elif r elif' q) :
    Grows F (BlockGoes F) (otherwise stmt elif) (otherwise stmt' elif') := by
  intro r q h hf
  refine .kind h ?_
  have nothing : Meets (Follows F (BlockGoes F)) (pure [] : Parse (List Stmt)) r (pure []) q :=
    .pure (.inl ⟨rfl, h, hf⟩)
  cases hk : r.current.kind with
  | keyword word =>
    cases word with
    | elif =>
      refine (helif h hf hk).bind ?_
      rintro s r1 s' q1 (⟨rfl, h1⟩ | ⟨hgoes, h1⟩)
      · exact .pure (.inl ⟨rfl, h1⟩)
      · exact .pure (.inr ⟨.last hgoes (by simp), h1⟩)
    | else_ => exact .advance h (by rw [hk]; rfl) fun h1 _ => body_meets hstmt hstacked h1
    | _ => exact nothing
  | _ => exact nothing

/-- At closing tokens no other branch begins. -/
theorem otherwise_closing {r r' : Reader} {ss : List Stmt} (hr : Closing r.ahead)
    (h : otherwise stmt elif r = .ok ss r') : ss = [] ∧ r' = r := by
  rw [otherwise, kind_bind_run] at h
  rcases closing_current hr with hk | hk <;>
    · simp only [hk] at h
      cases h
      exact ⟨rfl, rfl⟩

/-- A branch is complete with its body or with the other branch, and either may go on. -/
theorem branch_meets (hstmt : Grows F (StmtGoes F) stmt stmt')
    (hstacked : Stacked stmt' fun s => [s])
    (helif : ∀ ⦃r q⦄, F.Together r q → r.Fresh → r.current.kind = .keyword .elif →
      Meets (Follows F (StmtGoes F)) elif r elif' q)
    (helif' : ∀ ⦃r s r'⦄, r.Ended → r.current.kind = .keyword .elif → elif' r = .ok s r' →
      ∃ own, r.Stacks own [s] r')
    (h : F.Together r q) (hk : r.current.kind.isPlain = true) :
    Meets (Follows F (StmtGoes F)) (branch (expression .standard) stmt elif) r
      (branch (expression .standard) stmt' elif') q := by
  rw [branch_eq, branch_eq]
  refine .advance h hk fun h1 hf1 => (expr_keeps _ h1 hf1).bind fun condition r2 q2 h2 => ?_
  refine (body_meets hstmt hstacked h2).bind ?_
  rintro ss r3 ss' q3 (⟨rfl, h3, hf3⟩ | ⟨hgoes, h3⟩)
  · exact compound_meets .other (otherwise_grows hstmt hstacked helif h3 hf3)
  · intro s r' s' q' hx hy
    obtain ⟨other, mid, hother, hlast⟩ := bind_ok.1 hx
    obtain ⟨other', mid', hother', hlast'⟩ := bind_ok.1 hy
    obtain ⟨rfl, rfl⟩ := otherwise_closing h3.closing hother
    obtain ⟨own, hstacks⟩ := otherwise_stacked hstacked helif' h3.ended hother'
    obtain ⟨h4, hlater⟩ := h3.of_stacks hstacks
    cases hlast
    cases hlast'
    exact .inr ⟨.body hgoes hlater, h4⟩

end Branch

end Bodies

theorem isPlain_of_statements {kind : TokenKind}
    (h : (Grammar.standard.statements kind).isSome = true) : kind.isPlain = true := by
  cases kind <;> simp_all [Grammar.standard, Grammar.standardStatements, TokenKind.isPlain]

end Parse

open Parse Reader

variable {F : Fork} {r q r' : Reader}

theorem statement_meets (h : F.Together r q)
    (hby : Meets (Follows F (StmtGoes F))
      (statementBy .standard (Grammar.standard.statements r.current.kind)) r
      (statementBy .standard (Grammar.standard.statements r.current.kind)) q) :
    Meets (Follows F (StmtGoes F)) (statement .standard) r (statement .standard) q := by
  intro s r' s' q' hx hy
  rw [statement] at hx hy
  rw [h.current] at hy
  exact hby hx hy

/-- A rule reads side by side the same statement, or one that goes on. -/
theorem statementBy_meets {rule : Option StatementRule} (h : F.Together r q) (hf : r.Fresh)
    (hk : rule.isSome = true → r.current.kind.isPlain = true) :
    Meets (Follows F (StmtGoes F)) (statementBy .standard rule) r (statementBy .standard rule)
      q := by
  induction hn : r.remaining using Nat.strongRecOn generalizing r q rule with
  | ind n ih =>
    subst hn
    have hstmt : Grows F (StmtGoes F)
        (fun r1 => if r1.remaining < r.remaining then statement .standard r1
          else unmet "expected a statement" r1)
        (fun q1 => if q1.remaining < q.remaining then statement .standard q1
          else unmet "expected a statement" q1) := by
      intro r1 q1 h1 hf1
      refine .guarded h h1 (fun hlt => ?_) .unmet
      exact statement_meets h1 (ih _ hlt h1 hf1 isPlain_of_statements rfl)
    have hstacked : Stacked (fun q1 => if q1.remaining < q.remaining then statement .standard q1
        else unmet "expected a statement" q1) fun s => [s] := by
      intro q1 s q2 hq hs
      simp only at hs
      split at hs
      · exact statement_stacked Grammar.standard_solid hq hs
      · simp [unmet_run] at hs
    intro s r' s' q' hx hy
    rw [statementBy] at hx hy
    cases rule with
    | none => exact simple_grows h hf hx hy
    | some rule =>
      have hplain := hk rfl
      cases rule with
      | define => exact define_meets hstmt hstacked h hplain hx hy
      | return_ => exact return_meets h hplain hx hy
      | branch =>
        refine branch_meets hstmt hstacked (fun r1 q1 h1 hf1 hk1 => ?_) ?_ h hplain hx hy
        · exact .guarded h h1 (fun hlt => ih _ hlt h1 hf1 (fun _ => by rw [hk1]; rfl) rfl) .unmet
        · intro q1 s q2 hq hk1 hs
          split at hs
          · exact statementBy_stacked Grammar.standard_solid hq (fun _ => by simp [hk1]) hs
          · simp [unmet_run] at hs
      | loop => exact loop_meets hstmt hstacked h hplain hx hy
      | word => exact word_meets h hplain hx hy

theorem statement_grows : Grows F (StmtGoes F) (statement .standard) (statement .standard) :=
  fun _ _ h hf => statement_meets h (statementBy_meets h hf isPlain_of_statements)

theorem programTurn_grows :
    Grows F (SomeGoes F) (programTurn .standard) (programTurn .standard) := by
  intro r q h hf
  refine .get ?_
  rw [hasTokens, hasTokens, h.current]
  refine .ite (fun _ => ?_) fun _ => .pure (.inl ⟨rfl, h, hf⟩)
  exact (statement_grows h hf).map fun _ _ _ _ h' => h'.some

/-- No statement begins where a block ends. -/
theorem programTurn_closing {o : Option Stmt} (hr : Closing r.ahead)
    (h : programTurn .standard r = .ok o r') : o = none ∧ r' = r := by
  rw [programTurn, get_bind_run, hasTokens] at h
  rcases closing_current hr with hk | hk
  · rw [hk] at h
    obtain ⟨s, hs, -⟩ := map_ok.1 h
    rw [statement, hk, statementBy] at hs
    have hsimple : simple .standard (expression .standard) r = .ok s r' := hs
    rw [simple, get_bind_run] at hsimple
    obtain ⟨e, mid, he, -⟩ := bind_ok.1 hsimple
    obtain ⟨first, mid, hfirst, -⟩ := bind_ok.1 he
    rw [expression] at hfirst
    simp only [expressionOf, kind_bind_run, hk] at hfirst
    cases hfirst
  · rw [hk] at h
    cases h
    exact ⟨rfl, rfl⟩

theorem StmtForest.ne_nil {own ts : List Token} {n n' : Nat} {ss : List Stmt}
    (h : StmtForest own ts n ss n') (hne : ss ≠ []) : ts ≠ [] := by
  cases h with
  | nil => simp at hne
  | own t rest => simp
  | tree first rest =>
    cases first with
    | node exprs bodies ne => simp [ne]

/-- The statements of a program go on to the mark of the end. -/
theorem many_programTurn_ends {ss : List Stmt} (hr : r.Ended)
    (h : many (programTurn .standard) r = .ok ss r') : r'.current.kind = .endOfSource := by
  induction hn : r.remaining using Nat.strongRecOn generalizing r ss with
  | ind n ih =>
    subst hn
    rcases many_cases h with ⟨hi, rfl⟩ | ⟨s, mid, others, hi, rfl, hmore⟩
    · rw [programTurn, get_bind_run] at hi
      split at hi
      · obtain ⟨s, -, hs⟩ := map_ok.1 hi
        cases hs
      · rename_i hk
        cases hi
        simpa [hasTokens] using hk
    · obtain ⟨own, ts, hp, hforest⟩ := programTurn_stacked Grammar.standard_solid hr hi
      have hts := List.length_pos_iff.2 (hforest.ne_nil (by simp))
      have hlt : mid.remaining < r.remaining := by
        have hlength := congrArg List.length hp.ahead
        rw [List.length_append, ← Fork.remaining_eq_length, ← Fork.remaining_eq_length] at hlength
        omega
      rw [if_pos hlt] at hmore
      exact ih _ hlt (hp.ended hr) hmore rfl

theorem program_meets {file file' : String} {p p' : Program} (hr : r.Ended)
    (h : F.Together r q ∧ r.Fresh ∨ F.Parted r q) (hx : program .standard file r = .ok p r')
    (hy : program .standard file' q = .ok p' q') :
    BlockGoes F p.body p'.body ∧ Apart F.shared := by
  rw [program] at hx hy
  obtain ⟨ss, mid, hss, hx⟩ := bind_ok.1 hx
  obtain ⟨ss', mid', hss', hy⟩ := bind_ok.1 hy
  cases hx
  cases hy
  rcases h with ⟨h, hf⟩ | h
  · have hends := many_programTurn_ends hr hss
    rcases many_grows programTurn_grows (fun _ _ _ => programTurn_closing)
      (programTurn_stacked Grammar.standard_solid) h hf hss hss' with ⟨-, h', -⟩ | ⟨hgoes, h'⟩
    · exact absurd hends (F.unmarked _ h'.mem_shared)
    · exact ⟨hgoes, h'.apart⟩
  · obtain ⟨rfl, -, hlater⟩ := many_parted (fun _ _ _ => programTurn_closing)
      (programTurn_stacked Grammar.standard_solid) h (.inl hss) (.inl hss')
    exact ⟨.nil hlater, h.apart⟩

end BuildTyping
