import BuildTyping.Grammar.Program
import BuildTyping.Proofs.Grammar.Expression
import BuildTyping.Proofs.Grammar.StmtTree

/-!
# Programs are read as forests

A statement is read as a tree of its expressions and of the statements within it, one after the
other and with any tokens between them, and a whole program as a forest of such trees.
-/

namespace BuildTyping

namespace Parse

open Reader

variable {α : Type} {g : Grammar} {expr : Precedence → Parse Expr} {stmt : Parse Stmt}

/-- A success goes past the trees of some parts, in order. -/
def Covers (x : Parse α) (parts : α → List Expr) : Prop :=
  ∀ ⦃r a r'⦄, r.Ended → x r = .ok a r' → ∃ own, r.Gathers own (parts a) r'

/-- A success goes past the trees of some statements, in order. -/
def Stacked (x : Parse α) (parts : α → List Stmt) : Prop :=
  ∀ ⦃r a r'⦄, r.Ended → x r = .ok a r' → ∃ own, r.Stacks own (parts a) r'

/-- What each turn of a loop goes past is passed one after the other. -/
theorem many_passes {β : Type} {item : Parse (Option α)} {parts : α → List β}
    {past : Reader → List β → Reader → Prop}
    (trans : ∀ {r mid r' bs bs'}, past r bs mid → past mid bs' r' → past r (bs ++ bs') r')
    (ended : ∀ {r bs r'}, past r bs r' → r.Ended → r'.Ended)
    (h : ∀ {r o r'}, r.Ended → item r = .ok o r' → past r (o.elim [] parts) r')
    {r r' : Reader} {as : List α} (hr : r.Ended) (hmany : many item r = .ok as r') :
    past r (as.flatMap parts) r' := by
  refine many_induction (P := fun r as r' => r.Ended → past r (as.flatMap parts) r')
    ?_ ?_ ?_ hmany hr
  · intro r r' hi hr
    exact h hr hi
  · intro r a r' hi hr
    simpa using h hr hi
  · intro r a mid as r' hi ih hr
    have hfirst := h hr hi
    exact trans hfirst (ih (ended hfirst hr))

theorem Covers.many {item : Parse (Option α)} {parts : α → List Expr}
    (h : Covers item fun o => o.elim [] parts) : Covers (many item) fun as => as.flatMap parts := by
  intro r as r' hr hmany
  refine @many_passes _ _ _ _ (fun r es r' => ∃ own, r.Gathers own es r') ?_ ?_
    (fun hr hi => h hr hi) _ _ _ hr hmany
  · rintro r mid r' es es' ⟨own, hg⟩ ⟨own', hg'⟩
    exact ⟨own ++ own', hg.trans hg'⟩
  · rintro r es r' ⟨own, hg⟩ hr
    exact hg.ended hr

theorem Stacked.many {item : Parse (Option α)} {parts : α → List Stmt}
    (h : Stacked item fun o => o.elim [] parts) :
    Stacked (many item) fun as => as.flatMap parts := by
  intro r as r' hr hmany
  refine @many_passes _ _ _ _ (fun r ss r' => ∃ own, r.Stacks own ss r') ?_ ?_
    (fun hr hi => h hr hi) _ _ _ hr hmany
  · rintro r mid r' ss ss' ⟨own, hs⟩ ⟨own', hs'⟩
    exact ⟨own ++ own', hs.trans hs'⟩
  · rintro r ss r' ⟨own, hs⟩ hr
    exact hs.ended hr

theorem checkTarget_ok {target : Expr} {u : Unit} {r r' : Reader}
    (h : checkTarget target r = .ok u r') : r' = r := by
  rw [checkTarget] at h
  cases hu : unassignable? target with
  | some e => simp [hu, throw_run] at h
  | none =>
    simp only [hu] at h
    cases h
    rfl

theorem statementEnd_covers : Covers statementEnd fun _ => [] := by
  intro r u r' hr h
  rw [statementEnd, kind_bind_run] at h
  cases hk : r.current.kind with
  | sign sign =>
    cases sign with
    | semicolon =>
      have h1 := Gathers.next hr (by simp [hk])
      simp only [hk, advance_bind_run, kind_bind_run] at h
      split at h
      · rename_i hn
        rw [advance_bind_run] at h
        cases h
        exact ⟨_, h1.trans (.next (h1.ended hr) (by simp [hn]))⟩
      · cases h
        exact ⟨_, h1⟩
    | _ => simp [hk, unmet_run] at h
  | newline =>
    simp only [hk, advance_bind_run] at h
    cases h
    exact ⟨_, .next hr (by simp [hk])⟩
  | endOfSource | dedent =>
    simp only [hk] at h
    cases h
    exact ⟨_, .refl r⟩
  | _ => simp [hk, unmet_run] at h

theorem simpleForm_covers (hexpr : ∀ p, Reads (expr p)) {first : Expr} {form : Form Stmt}
    {r r' : Reader} (hr : r.Ended) (h : simpleForm g expr first r = .ok form r') :
    form.bodies = [] ∧ ∃ own rest, form.exprs = first :: rest ∧ r.Gathers own rest r' := by
  rw [simpleForm, kind_bind_run] at h
  cases hk : r.current.kind with
  | sign sign =>
    have h1 := Gathers.next hr (by simp [hk])
    simp only [hk] at h
    split at h
    · rw [advance_bind_run] at h
      obtain ⟨u, mid, hcheck, h⟩ := bind_ok.1 h
      cases checkTarget_ok hcheck
      obtain ⟨value, last, hvalue, h⟩ := bind_ok.1 h
      cases h
      exact ⟨rfl, _, [value], rfl, h1.trans (exprList_reads hexpr (h1.ended hr) hvalue)⟩
    · split at h
      · rw [advance_bind_run] at h
        cases hop : BinaryOp.ofKind? r.current.kind with
        | none => simp [hop, unexpected, throw_run] at h
        | some op =>
          simp only [hop] at h
          split at h
          · obtain ⟨value, last, hvalue, h⟩ := bind_ok.1 h
            cases h
            exact ⟨rfl, _, [value], rfl, h1.trans (exprList_reads hexpr (h1.ended hr) hvalue)⟩
          · simp [throw_run] at h
      · cases h
        exact ⟨rfl, _, [], rfl, .refl r⟩
  | _ =>
    simp only [hk] at h
    cases h
    exact ⟨rfl, _, [], rfl, .refl r⟩

theorem simple_stacked (hexpr : ∀ p, Reads (expr p)) :
    Stacked (simple g expr) fun s => [s] := by
  intro r s r' hr h
  rw [simple, get_bind_run] at h
  obtain ⟨first, mid, hfirst, h⟩ := bind_ok.1 h
  obtain ⟨form, mid', hform, h⟩ := bind_ok.1 h
  rw [spanFrom_bind_run] at h
  obtain ⟨u, last, hend, h⟩ := bind_ok.1 h
  cases h
  have h1 := exprList_reads hexpr hr hfirst
  obtain ⟨hbodies, own, rest, hexprs, h2⟩ := simpleForm_covers hexpr (h1.ended hr) hform
  have h3 := h1.trans h2
  obtain ⟨ending, h4⟩ := statementEnd_covers (h3.ended hr) hend
  have hnone : mid'.Stacks [] form.bodies mid' := by
    rw [hbodies]
    exact .refl mid'
  exact ⟨[], .stmt (by rwa [hexprs]) (.inr (by simp [hexprs])) hnone rfl h4⟩

/-- A turn of the loop over the statements of a block. -/
def blockTurn (stmt : Parse Stmt) : Parse (Option Stmt) := do
  if ← inBody then some <$> stmt else return none

/-- A turn of the loop over the statements on the line of a colon. -/
def inlineTurn (stmt : Parse Stmt) : Parse (Option Stmt) := do
  let afterSemicolon := (← get).previous?.any fun t => t.kind = .sign .semicolon
  if afterSemicolon && (← inBody) then some <$> stmt else return none

theorem blockTurn_stacked (hstmt : Stacked stmt fun s => [s]) :
    Stacked (blockTurn stmt) fun o => o.elim [] fun s => [s] := by
  intro r o r' hr h
  rw [blockTurn, inBody, bind_assoc, kind_bind_run, pure_bind_run] at h
  split at h
  · obtain ⟨s, hs, rfl⟩ := map_ok.1 h
    exact hstmt hr hs
  · cases h
    exact ⟨[], .refl r⟩

theorem inlineTurn_stacked (hstmt : Stacked stmt fun s => [s]) :
    Stacked (inlineTurn stmt) fun o => o.elim [] fun s => [s] := by
  intro r o r' hr h
  simp only [inlineTurn, get_bind_run, inBody, bind_assoc, kind_bind_run, pure_bind_run] at h
  split at h
  · obtain ⟨s, hs, rfl⟩ := map_ok.1 h
    exact hstmt hr hs
  · cases h
    exact ⟨[], .refl r⟩

theorem body_stacked (hstmt : Stacked stmt fun s => [s]) : Stacked (body stmt) fun ss => ss := by
  intro r ss r' hr h
  rw [body] at h
  obtain ⟨t, mid, ht, h⟩ := bind_ok.1 h
  obtain ⟨hc, rfl, rfl⟩ := expectFor_ok.1 ht
  have h1 := Gathers.next hr (by simp [hc])
  rw [kind_bind_run] at h
  split at h
  · rename_i hn
    have h2 := h1.trans (.next (h1.ended hr) (by simp [hn]))
    rw [advance_bind_run] at h
    obtain ⟨t, mid, ht, h⟩ := bind_ok.1 h
    obtain ⟨hi, rfl, rfl⟩ := expectFor_ok.1 ht
    have h3 := h2.trans (.next (h2.ended hr) (by simp [hi]))
    obtain ⟨statements, mid, hmany, h⟩ := bind_ok.1 h
    obtain ⟨u, last, hu, h⟩ := bind_ok.1 h
    obtain ⟨hd, rfl, rfl⟩ := expect_ok.1 hu
    cases h
    obtain ⟨own, h4⟩ := (blockTurn_stacked hstmt).many (h3.ended hr) hmany
    have h5 := h3.stacks.trans h4
    have h6 := h5.trans (Gathers.next (h5.ended hr) (by simp [hd])).stacks
    exact ⟨_, by simpa using h6⟩
  · obtain ⟨first, mid, hfirst, h⟩ := bind_ok.1 h
    obtain ⟨others, last, hmany, h⟩ := bind_ok.1 h
    cases h
    obtain ⟨own, h2⟩ := hstmt (h1.ended hr) hfirst
    have h3 := h1.stacks.trans h2
    obtain ⟨own', h4⟩ := (inlineTurn_stacked hstmt).many (h3.ended hr) hmany
    exact ⟨_, by simpa using h3.trans h4⟩

theorem default_covers (hexpr : ∀ p, Reads (expr p)) :
    Covers (default? expr) Option.toList := by
  intro r o r' hr h
  rw [default?, kind_bind_run] at h
  split at h
  · rename_i hk
    have h1 := Gathers.next hr (by simp [hk])
    rw [advance_bind_run] at h
    obtain ⟨e, he, rfl⟩ := map_ok.1 h
    exact ⟨_, h1.trans (hexpr _ (h1.ended hr) he)⟩
  · cases h
    exact ⟨[], .refl r⟩

theorem separator_covers (message : String) : Covers (separator message) fun _ => [] := by
  intro r u r' hr h
  obtain ⟨own, -, -, hg⟩ := separator_collects message hr h
  exact ⟨own, hg⟩

/-- The parts of what a turn of the loop over parameters gives. -/
def parameterParts : Option Parameter → List Expr
  | some p => p.default.toList
  | none => []

theorem defaults_eq (ps : List (Option Parameter)) :
    (ps.filterMap id).filterMap Parameter.default = ps.flatMap parameterParts := by
  induction ps with
  | nil => rfl
  | cons o ps ih =>
    cases o with
    | none => simpa [parameterParts] using ih
    | some p => cases hp : p.default <;> simp_all [parameterParts]

theorem parameterKind_covers : Covers parameterKind fun _ => [] := by
  intro r k r' hr h
  rw [parameterKind, kind_bind_run] at h
  cases hk : r.current.kind with
  | sign sign =>
    cases sign with
    | star | starStar =>
      simp only [hk, advance_bind_run] at h
      cases h
      exact ⟨_, .next hr (by simp [hk])⟩
    | _ =>
      simp only [hk] at h
      cases h
      exact ⟨[], .refl r⟩
  | _ =>
    simp only [hk] at h
    cases h
    exact ⟨[], .refl r⟩

theorem parameter_covers (hexpr : ∀ p, Reads (expr p)) :
    Covers (parameter expr) parameterParts := by
  intro r o r' hr h
  rw [parameter, get_bind_run] at h
  obtain ⟨paramKind, mid, hkind, h⟩ := bind_ok.1 h
  obtain ⟨own, h1⟩ := parameterKind_covers hr hkind
  rw [kind_bind_run] at h
  split at h
  · rw [kind_bind_run] at h
    split at h
    · rename_i hk
      rw [advance_bind_run] at h
      cases h
      exact ⟨_, h1.trans (.next (h1.ended hr) (by simp [hk]))⟩
    · cases h
      exact ⟨_, h1⟩
  · obtain ⟨name, after, hname, h⟩ := bind_ok.1 h
    obtain ⟨hid, rfl, rfl⟩ := expectFor_ok.1 hname
    have h2 := h1.trans (.next (h1.ended hr) (by simp [hid]))
    have finish {value : Option Expr} {last : Reader} {own : List Token}
        (h3 : r.Gathers own value.toList last)
        (h : (do
          let span ← spanFrom r.current.span.start
          separator "expected `,` or `)` in parameter list"
          return some ⟨mid.current.value, paramKind, value, span⟩ : Parse (Option Parameter)) last
            = .ok o r') : ∃ own, r.Gathers own (parameterParts o) r' := by
      rw [spanFrom_bind_run] at h
      obtain ⟨u, end_, hu, h⟩ := bind_ok.1 h
      cases h
      obtain ⟨own', h4⟩ := separator_covers _ (h3.ended hr) hu
      exact ⟨own ++ own', by simpa [parameterParts] using h3.trans h4⟩
    split at h
    · obtain ⟨value, last, hvalue, h⟩ := bind_ok.1 h
      obtain ⟨own', h3⟩ := default_covers hexpr (h2.ended hr) hvalue
      exact finish (h2.trans h3) h
    · have h3 : r.Gathers _ (Option.toList none) _ := h2
      exact finish h3 h

theorem define_stacked (hexpr : ∀ p, Reads (expr p)) (hstmt : Stacked stmt fun s => [s])
    {r r' : Reader} {s : Stmt} (hr : r.Ended) (hk : r.current.kind ≠ .endOfSource)
    (h : define expr stmt r = .ok s r') : ∃ own, r.Stacks own [s] r' := by
  have h1 := Gathers.next hr hk
  rw [define, advance_bind_run] at h
  obtain ⟨name, after, hname, h⟩ := bind_ok.1 h
  obtain ⟨hid, rfl, rfl⟩ := expectFor_ok.1 hname
  have h2 := h1.trans (.next (h1.ended hr) (by simp [hid]))
  obtain ⟨t, after, ht, h⟩ := bind_ok.1 h
  obtain ⟨hopen, rfl, rfl⟩ := expect_ok.1 ht
  have h3 := h2.trans (.next (h2.ended hr) (by simp [hopen]))
  obtain ⟨parameters, mid, hmany, h⟩ := bind_ok.1 h
  have hturn : Covers (do
      if (← kind) = .closing .round then return none else some <$> parameter expr)
      fun o => o.elim [] parameterParts := by
    intro r o r' hr h
    rw [kind_bind_run] at h
    split at h
    · cases h
      exact ⟨[], .refl r⟩
    · obtain ⟨p, hp, rfl⟩ := map_ok.1 h
      exact parameter_covers hexpr hr hp
  obtain ⟨own, h4⟩ := hturn.many (h3.ended hr) hmany
  have h5 := h3.trans h4
  obtain ⟨t, after, ht, h⟩ := bind_ok.1 h
  obtain ⟨hclose, rfl, rfl⟩ := expect_ok.1 ht
  have h6 := h5.trans (.next (h5.ended hr) (by simp [hclose]))
  obtain ⟨statements, last, hbody, h⟩ := bind_ok.1 h
  obtain ⟨own', h7⟩ := body_stacked hstmt (h6.ended hr) hbody
  rw [spanFrom_bind_run] at h
  cases h
  simp only [List.nil_append, List.append_nil, ← defaults_eq] at h6
  exact ⟨[], .stmt h6 (.inl (by simp)) h7 rfl (.refl r')⟩

theorem return_stacked (hexpr : ∀ p, Reads (expr p)) {r r' : Reader} {s : Stmt} (hr : r.Ended)
    (hk : r.current.kind ≠ .endOfSource) (h : return_ g expr r = .ok s r') :
    ∃ own, r.Stacks own [s] r' := by
  have h1 := Gathers.next hr hk
  have finish {value : Option Expr} {mid : Reader} (h2 : r.next.Gathers [] value.toList mid)
      (h : (do
        let span ← spanFrom r.current.span.start
        statementEnd
        return ⟨span, .return_ value⟩ : Parse Stmt) mid = .ok s r') :
      ∃ own, r.Stacks own [s] r' := by
    rw [spanFrom_bind_run] at h
    obtain ⟨u, last, hend, h⟩ := bind_ok.1 h
    cases h
    have h3 := h1.trans h2
    obtain ⟨ending, h4⟩ := statementEnd_covers (h3.ended hr) hend
    exact ⟨[], .stmt h3 (.inl (by simp)) (.refl mid) rfl h4⟩
  have present (h : (do
        let value ← some <$> exprList g expr
        let span ← spanFrom r.current.span.start
        statementEnd
        return ⟨span, .return_ value⟩ : Parse Stmt) r.next = .ok s r') :
      ∃ own, r.Stacks own [s] r' := by
    obtain ⟨value, mid, hvalue, h⟩ := bind_ok.1 h
    obtain ⟨e, he, rfl⟩ := map_ok.1 hvalue
    have h2 : r.next.Gathers [] (some e).toList mid := exprList_reads hexpr (h1.ended hr) he
    exact finish h2 h
  have absent : r.next.Gathers [] (Option.toList none) r.next := .refl r.next
  rw [return_, advance_bind_run, kind_bind_run] at h
  cases hn : r.next.current.kind with
  | newline | endOfSource | dedent =>
    simp only [hn] at h
    exact finish absent h
  | sign sign =>
    cases sign with
    | semicolon =>
      simp only [hn] at h
      exact finish absent h
    | _ =>
      simp only [hn] at h
      exact present h
  | _ =>
    simp only [hn] at h
    exact present h

/-- What is read after the body of a branch. -/
def otherwise (stmt elif : Parse Stmt) : Parse (List Stmt) := do
  match ← kind with
  | .keyword .elif => return [← elif]
  | .keyword .else_ =>
    let _ ← advance
    body stmt
  | _ => return []

theorem branch_eq (expr : Precedence → Parse Expr) (stmt elif : Parse Stmt) :
    branch expr stmt elif = (do
      let start := (← advance).span.start
      let condition ← expr .lowest
      let statements ← body stmt
      let other ← otherwise stmt elif
      return ⟨← spanFrom start, .branch condition statements other⟩) := by
  unfold branch otherwise
  refine bind_congr fun t => bind_congr fun condition => bind_congr fun statements => ?_
  rw [bind_assoc]
  refine bind_congr fun k => ?_
  split <;> simp only [bind_assoc, pure_bind]

theorem otherwise_stacked (hstmt : Stacked stmt fun s => [s]) {elif : Parse Stmt}
    (helif : ∀ ⦃r s r'⦄, r.Ended → r.current.kind = .keyword .elif → elif r = .ok s r' →
      ∃ own, r.Stacks own [s] r') : Stacked (otherwise stmt elif) fun ss => ss := by
  intro r ss r' hr h
  rw [otherwise, kind_bind_run] at h
  cases hn : r.current.kind with
  | keyword word =>
    cases word with
    | elif =>
      simp only [hn] at h
      obtain ⟨inner, last, hinner, h⟩ := bind_ok.1 h
      cases h
      exact helif hr hn hinner
    | else_ =>
      simp only [hn, advance_bind_run] at h
      have h1 := Gathers.next hr (by simp [hn])
      obtain ⟨own, h2⟩ := body_stacked hstmt (h1.ended hr) h
      exact ⟨_, h1.stacks.trans h2⟩
    | _ =>
      simp only [hn] at h
      cases h
      exact ⟨[], .refl r⟩
  | _ =>
    simp only [hn] at h
    cases h
    exact ⟨[], .refl r⟩

theorem branch_stacked (hexpr : ∀ p, Reads (expr p)) (hstmt : Stacked stmt fun s => [s])
    {elif : Parse Stmt} (helif : ∀ ⦃r s r'⦄, r.Ended → r.current.kind = .keyword .elif →
      elif r = .ok s r' → ∃ own, r.Stacks own [s] r')
    {r r' : Reader} {s : Stmt} (hr : r.Ended) (hk : r.current.kind ≠ .endOfSource)
    (h : branch expr stmt elif r = .ok s r') : ∃ own, r.Stacks own [s] r' := by
  have h1 := Gathers.next hr hk
  rw [branch_eq, advance_bind_run] at h
  obtain ⟨condition, mid, hcondition, h⟩ := bind_ok.1 h
  have h2 := h1.trans (hexpr _ (h1.ended hr) hcondition)
  obtain ⟨statements, after, hbody, h⟩ := bind_ok.1 h
  obtain ⟨own, h3⟩ := body_stacked hstmt (h2.ended hr) hbody
  obtain ⟨other, last, hother, h⟩ := bind_ok.1 h
  obtain ⟨own', h4⟩ := otherwise_stacked hstmt helif (h3.ended (h2.ended hr)) hother
  rw [spanFrom_bind_run] at h
  cases h
  exact ⟨[], .stmt h2 (.inl (by simp)) (h3.trans h4) rfl (.refl r')⟩

theorem loop_stacked (hexpr : ∀ p, Reads (expr p)) (hstmt : Stacked stmt fun s => [s])
    {r r' : Reader} {s : Stmt} (hr : r.Ended) (hk : r.current.kind ≠ .endOfSource)
    (h : loop g expr stmt r = .ok s r') : ∃ own, r.Stacks own [s] r' := by
  have h1 := Gathers.next hr hk
  rw [loop, advance_bind_run] at h
  obtain ⟨target, mid, htarget, h⟩ := bind_ok.1 h
  have h2 := h1.trans (targetList_reads hexpr (h1.ended hr) htarget)
  obtain ⟨u, after, hcheck, h⟩ := bind_ok.1 h
  cases checkTarget_ok hcheck
  obtain ⟨t, after, ht, h⟩ := bind_ok.1 h
  obtain ⟨hin, rfl, rfl⟩ := expectFor_ok.1 ht
  have h3 := h2.trans (.next (h2.ended hr) (by simp [hin]))
  obtain ⟨iterable, after, hiterable, h⟩ := bind_ok.1 h
  have h4 := h3.trans (exprList_reads hexpr (h3.ended hr) hiterable)
  obtain ⟨statements, last, hbody, h⟩ := bind_ok.1 h
  obtain ⟨own, h5⟩ := body_stacked hstmt (h4.ended hr) hbody
  rw [spanFrom_bind_run] at h
  cases h
  exact ⟨[], .stmt h4 (.inl (by simp)) h5 rfl (.refl r')⟩

theorem word_stacked {r r' : Reader} {s : Stmt} (hr : r.Ended)
    (hk : r.current.kind ≠ .endOfSource) (h : word r = .ok s r') :
    ∃ own, r.Stacks own [s] r' := by
  have h1 := Gathers.next hr hk
  have finish {form : Form Stmt} (hf : form.exprs = []) (hb : form.bodies = [])
      (h : (do
        statementEnd
        return ⟨r.current.span, form⟩ : Parse Stmt) r.next = .ok s r') :
      ∃ own, r.Stacks own [s] r' := by
    obtain ⟨u, last, hend, h⟩ := bind_ok.1 h
    cases h
    obtain ⟨ending, h2⟩ := statementEnd_covers (h1.ended hr) hend
    have hspan : r.current.span = r.next.spanFrom r.current.span.start :=
      ((passes_next hr hk).spanFrom (by simp)).symm
    have hnone : r.next.Stacks [] form.bodies r.next := by
      rw [hb]
      exact .refl r.next
    exact ⟨[], .stmt (by rwa [hf]) (.inl (by simp)) hnone hspan h2⟩
  rw [word, advance_bind_run] at h
  cases hw : r.current.kind with
  | keyword word =>
    cases word with
    | pass | break_ | continue_ =>
      simp only [hw] at h
      exact finish rfl rfl h
    | _ => simp [hw, unexpected, throw_run] at h
  | _ => simp [hw, unexpected, throw_run] at h

end Parse

open Parse

/-- A rule reads the tree of its statement. -/
theorem statementBy_stacked {g : Grammar} (hg : g.Solid) {rule : Option StatementRule}
    {r r' : Reader} {s : Stmt} (hr : r.Ended)
    (hk : rule.isSome = true → r.current.kind ≠ .endOfSource)
    (h : statementBy g rule r = .ok s r') : ∃ own, r.Stacks own [s] r' := by
  induction hn : r.remaining using Nat.strongRecOn generalizing r r' s rule with
  | ind n ih =>
    subst hn
    have hexpr (p : Precedence) : Reads (expression g p) := expression_reads hg p
    rw [statementBy] at h
    have hstmt : Stacked (fun r' =>
        if r'.remaining < r.remaining then statementBy g (g.statements r'.current.kind) r'
        else unmet "expected a statement" r') fun s => [s] := by
      intro r2 s2 r2' hr2 h2
      simp only at h2
      split at h2
      · rename_i hlt
        refine ih _ hlt hr2 ?_ h2 rfl
        intro hsome
        exact TokenKind.ne_endOfSource_of_isSolid (hg.statements hsome)
      · simp [unmet_run] at h2
    cases rule with
    | none => exact simple_stacked hexpr hr h
    | some rule =>
      have hkind := hk rfl
      cases rule with
      | define => exact define_stacked hexpr hstmt hr hkind h
      | return_ => exact return_stacked hexpr hr hkind h
      | branch =>
        refine branch_stacked hexpr hstmt ?_ hr hkind h
        intro r2 s2 r2' hr2 hk2 h2
        split at h2
        · rename_i hlt
          exact ih _ hlt hr2 (fun _ => by simp [hk2]) h2 rfl
        · simp [unmet_run] at h2
      | loop => exact loop_stacked hexpr hstmt hr hkind h
      | word => exact word_stacked hr hkind h

theorem statement_stacked {g : Grammar} (hg : g.Solid) : Stacked (statement g) fun s => [s] := by
  intro r s r' hr h
  refine statementBy_stacked hg hr ?_ h
  intro hsome
  exact TokenKind.ne_endOfSource_of_isSolid (hg.statements hsome)

/-- A turn of the loop over the statements of a program. -/
def programTurn (g : Grammar) : Parse (Option Stmt) := do
  if (← get).hasTokens then some <$> statement g else return none

theorem programTurn_stacked {g : Grammar} (hg : g.Solid) :
    Stacked (programTurn g) fun o => o.elim [] fun s => [s] := by
  intro r o r' hr h
  rw [programTurn, Parse.get_bind_run] at h
  split at h
  · obtain ⟨s, hs, rfl⟩ := map_ok.1 h
    exact statement_stacked hg hr hs
  · cases h
    exact ⟨[], .refl r⟩

theorem program_stacked {g : Grammar} (hg : g.Solid) (file : String) :
    Stacked (program g file) Program.body := by
  intro r p r' hr h
  rw [program] at h
  obtain ⟨statements, last, hmany, h⟩ := bind_ok.1 h
  rw [get_bind_run] at h
  cases h
  simpa using (programTurn_stacked hg).many hr hmany

/-- The program of a source is that of its tokens. -/
theorem Program.ofSource_ok {source : List Char} {file : String} {p : Program} :
    ofSource source file = .ok p ↔
      ∃ ts r, tokens source file = .ok ts ∧ ofTokens ts file = .ok p r := by
  rw [ofSource]
  cases tokens source file with
  | error fault => simp
  | ok ts => cases hp : ofTokens ts file <;> simp [hp]

end BuildTyping
