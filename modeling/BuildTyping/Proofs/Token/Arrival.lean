import BuildTyping.Proofs.Token.Cut
import BuildTyping.Proofs.Token.Line
import BuildTyping.Proofs.Token.Reach

/-!
# The way to a place in a source

How a scanner comes to the end of a token or to the start of a line, and what it has emitted up to
there. Another text behind that place leaves the way as it is, if it begins as trivia does and no
two strings touch.
-/

namespace BuildTyping

/-- The number of open brackets behind a token. -/
def TokenKind.depthAfter (depth : Nat) : TokenKind → Nat
  | opening _ => depth + 1
  | closing _ => depth - 1
  | _ => depth

/-- The number of open brackets behind tokens. -/
def depthAfter (depth : Nat) (ts : List Token) : Nat :=
  ts.foldl (fun depth t => t.kind.depthAfter depth) depth

@[simp] theorem depthAfter_nil (depth : Nat) : depthAfter depth [] = depth := rfl
@[simp] theorem depthAfter_cons (depth : Nat) (t : Token) (ts : List Token) :
    depthAfter depth (t :: ts) = depthAfter (t.kind.depthAfter depth) ts := rfl

theorem depthAfter_append (depth : Nat) (ts us : List Token) :
    depthAfter depth (ts ++ us) = depthAfter (depthAfter depth ts) us := List.foldl_append

/-- The brackets that are open behind a token, if it closes none but the latest. -/
def TokenKind.openBehind? (brackets : List Bracket) : TokenKind → Option (List Bracket)
  | opening b => some (b :: brackets)
  | closing b => if brackets.head? = some b then some brackets.tail else none
  | _ => some brackets

/-- The brackets that are open behind tokens, the latest first, if each closing bracket matches the
latest open one. -/
def openBehind? (brackets : List Bracket) (ts : List Token) : Option (List Bracket) :=
  (ts.map (·.kind)).foldlM TokenKind.openBehind? brackets

section Open

variable {brackets after : List Bracket} {t : Token} {ts us : List Token}

theorem openBehind?_append : openBehind? brackets (ts ++ us) =
    (openBehind? brackets ts).bind fun after => openBehind? after us := by
  rw [openBehind?, List.map_append, List.foldlM_append]
  rfl

theorem openBehind?_cons : openBehind? brackets (t :: ts) =
    (t.kind.openBehind? brackets).bind fun after => openBehind? after ts := rfl

/-- Layout is no bracket. -/
theorem openBehind?_of_layout (h : ∀ t ∈ ts, t.kind.isSolid = false) (brackets : List Bracket) :
    openBehind? brackets ts = some brackets := by
  induction ts with
  | nil => rfl
  | cons t ts ih =>
    obtain ⟨ht, hts⟩ := List.forall_mem_cons.1 h
    have hkind : t.kind.openBehind? brackets = some brackets := by
      cases hk : t.kind <;> simp_all [TokenKind.openBehind?]
    rw [openBehind?_cons, hkind, Option.bind_some, ih hts]

theorem TokenKind.depthAfter_of_openBehind? {kind : TokenKind}
    (h : kind.openBehind? brackets = some after) :
    kind.depthAfter brackets.length = after.length := by
  cases kind with
  | closing b =>
    rw [openBehind?] at h
    split at h
    · cases h
      exact List.length_tail.symm
    · simp at h
  | _ =>
    cases h
    rfl

/-- There are as many open brackets as the depth says. -/
theorem depthAfter_of_openBehind? (h : openBehind? brackets ts = some after) :
    depthAfter brackets.length ts = after.length := by
  induction ts generalizing brackets with
  | nil =>
    cases h
    rfl
  | cons t ts ih =>
    rw [openBehind?_cons, Option.bind_eq_some_iff] at h
    obtain ⟨next, ht, hts⟩ := h
    rw [depthAfter_cons, TokenKind.depthAfter_of_openBehind? ht, ih hts]

theorem depthAfter_of_layout (h : ∀ t ∈ ts, t.kind.isSolid = false) (depth : Nat) :
    depthAfter depth ts = depth := by
  simpa using depthAfter_of_openBehind? (openBehind?_of_layout h (List.replicate depth .round))

end Open

/-- No string begins where another one ends. -/
def Detached (ts : List Token) : Prop :=
  ts.IsChain fun t u => t.kind = .string → u.kind = .string → t.span.stop ≠ u.span.start

/-- Where lines start after a place within a line: behind each line end outside brackets that is a
lexeme of its own. -/
def lineStartsAfter (offset depth : Nat) (rest : List Char) : List Nat :=
  match _h : Lexeme.next? rest with
  | none | some (.unterminated, _) => []
  | some (lexeme, n) =>
    let behind := offset + byteLength (rest.take n)
    (if lexeme = .lineEnd ∧ depth = 0 then [behind] else []) ++
      lineStartsAfter behind (lexeme.depthAfter depth) (rest.drop n)
  termination_by rest.length
  decreasing_by
    have := Lexeme.next?_bounds _h
    simp only [List.length_drop]
    omega

theorem lineStartsAfter_of_next? {offset depth n : Nat} {rest : List Char} {lexeme : Lexeme}
    (hn : Lexeme.next? rest = some (lexeme, n)) (hclosed : lexeme ≠ .unterminated) :
    lineStartsAfter offset depth rest =
      (if lexeme = .lineEnd ∧ depth = 0 then [offset + byteLength (rest.take n)] else []) ++
        lineStartsAfter (offset + byteLength (rest.take n)) (lexeme.depthAfter depth)
          (rest.drop n) := by
  rw [lineStartsAfter]
  split
  · rename_i hnone
    simp [hnone] at hn
  · rename_i hopen
    rw [hn, Option.some.injEq, Prod.mk.injEq] at hopen
    exact absurd hopen.1 hclosed
  · rename_i _ _ hsome
    rw [hn, Option.some.injEq, Prod.mk.injEq] at hsome
    obtain ⟨rfl, rfl⟩ := hsome
    rfl

/-- Where the lines of a source start that do not go on with what is before them: neither within
brackets or a literal nor behind a backslash. -/
def lineStarts (source : List Char) : List Nat := 0 :: lineStartsAfter 0 0 source

/-- The line ends in brackets, in the literal and behind the backslash start no line. -/
example : lineStarts "x = [\n1]\n\ny = \\\n'''\n'''\nz".toList = [0, 9, 10, 24] := by
  decide +kernel

namespace Scanner

variable {s s' m : Scanner} {ts us : List Token} {t : Token} {n : Nat} {w x : List Char}

/-- A lexeme opens a bracket or closes the one that matches it, and its token tells which. -/
theorem openBehind?_readLexeme (h : s.readLexeme = .ok (ts, s')) :
    openBehind? s.brackets ts = some s'.brackets := by
  simp only [readLexeme] at h
  split at h
  · simp at h
  · rename_i lexeme n hn
    cases lexeme with
    | gap =>
      cases h
      rfl
    | lineEnd =>
      simp only [endLine] at h
      split at h
      · cases h
        split <;> rfl
      · cases h
        rfl
    | unterminated => simp at h
    | string | opening | sign =>
      cases h
      rfl
    | number | word =>
      cases h
      simp only [skip, openBehind?_cons]
      split <;> rfl
    | closing bracket =>
      simp only at h
      split at h
      · rename_i hb
        cases h
        simp [openBehind?, TokenKind.openBehind?, hb, skip]
      · simp at h

/-- The only token of a lexeme that is layout is the end of a line, which is one outside brackets
only. -/
theorem layout_of_readLexeme {lexeme : Lexeme} (h : s.readLexeme = .ok (ts, s'))
    (hn : Lexeme.next? s.rest = some (lexeme, n)) (ht : t ∈ ts) :
    if lexeme = .lineEnd then t.kind.isSolid = false ∧ s.brackets = []
    else t.kind.isSolid = true := by
  simp only [readLexeme, hn] at h
  cases lexeme with
  | gap =>
    cases h
    simp at ht
  | lineEnd =>
    simp only [endLine] at h
    split at h
    · rename_i hb
      cases h
      split at ht
      · rw [List.mem_singleton.1 ht]
        exact ⟨rfl, List.isEmpty_iff.1 hb⟩
      · simp at ht
    · cases h
      simp at ht
  | unterminated => simp at h
  | string | opening | sign =>
    cases h
    rw [List.mem_singleton.1 ht]
    rfl
  | number | word =>
    cases h
    rw [List.mem_singleton.1 ht, if_neg (by simp)]
    dsimp only
    split <;> rfl
  | closing bracket =>
    simp only at h
    split at h
    · cases h
      rw [List.mem_singleton.1 ht]
      rfl
    · simp at h

/-- What a step does before it reads a lexeme. -/
structure Opens (s : Scanner) (layout : List Token) (mid : Scanner) : Prop where
  file : mid.file = s.file
  rest : mid.rest = s.rest
  offset : mid.offset = s.offset
  brackets : mid.brackets = s.brackets
  plain : ∀ t ∈ layout, t.kind.isSolid = false
  outside : layout ≠ [] → s.brackets = []
  start_le : ∀ t ∈ layout, t.span.start.offset ≤ s.offset + (indentation s.rest).length
  line : mid.atLineStart = true → s.atLineStart = true
  blank : (s.atLineStart = true → s.brackets = []) → mid.atLineStart = true →
    isBlankLine (s.rest.drop (indentation s.rest).length) = true

theorem step_reads (h : s.step = .ok (ts, s')) :
    ∃ layout mid us, s.Opens layout mid ∧ mid.readLexeme = .ok (us, s') ∧ ts = layout ++ us := by
  rcases step_ok.1 h with ⟨hc, layout, mid, us, ho, hr, rfl⟩ | ⟨hc, hr⟩
  · rw [Bool.and_eq_true, List.isEmpty_iff] at hc
    refine ⟨layout, mid, us, ?_, hr, rfl⟩
    rcases openLine_cases ho with ⟨hblank, rfl, rfl⟩ | ⟨hline, ⟨blocks, rfl⟩, htokens⟩
    · exact ⟨rfl, rfl, rfl, rfl, by simp, by simp, by simp, id, fun _ _ => hblank⟩
    · refine ⟨rfl, rfl, rfl, rfl, ?_, fun _ => hc.2, ?_, by simp, by simp⟩
      · rcases htokens with rfl | ⟨n, rfl⟩
        · simp [TokenKind.isSolid]
        · intro t ht
          rw [List.eq_of_mem_replicate ht]
          rfl
      · rcases htokens with rfl | ⟨n, rfl⟩
        · intro t ht
          rw [List.mem_singleton.1 ht]
          exact Nat.le_trans (Position.offset_ofOffset_le _ _) (Nat.le_add_right _ _)
        · intro t ht
          rw [List.eq_of_mem_replicate ht]
          exact Position.offset_ofOffset_le _ _
  · refine ⟨[], s, ts, ⟨rfl, rfl, rfl, rfl, by simp, by simp, by simp, id, fun hb hstart => ?_⟩,
      hr, rfl⟩
    simp [hstart, hb hstart] at hc

theorem next?_of_step (h : s.step = .ok (ts, s')) : ∃ lexeme n,
    Lexeme.next? s.rest = some (lexeme, n) ∧ lexeme ≠ .unterminated ∧ s.Skips n s' ∧
      s'.brackets.length = lexeme.depthAfter s.brackets.length := by
  obtain ⟨layout, mid, us, hopens, hr, rfl⟩ := step_reads h
  obtain ⟨lexeme, n, hpass⟩ := readLexeme_passes hr
  refine ⟨lexeme, n, ?_, hpass.closed, ⟨?_, ?_⟩, by rw [hpass.depth, hopens.brackets]⟩
  · rw [← hopens.rest]
    exact hpass.next
  · rw [hpass.skips.rest, hopens.rest]
  · rw [hpass.skips.offset, hopens.rest, hopens.offset]

theorem openBehind?_step (h : s.step = .ok (ts, s')) :
    openBehind? s.brackets ts = some s'.brackets := by
  obtain ⟨layout, mid, us, hopens, hr, rfl⟩ := step_reads h
  rw [openBehind?_append, openBehind?_of_layout hopens.plain, Option.bind_some, ← hopens.brackets]
  exact openBehind?_readLexeme hr

theorem depth_step (h : s.step = .ok (ts, s')) :
    s'.brackets.length = depthAfter s.brackets.length ts :=
  (depthAfter_of_openBehind? (openBehind?_step h)).symm

/-- No bracket is open at the start of a line. -/
theorem brackets_of_atLineStart (hb : s.atLineStart = true → s.brackets = [])
    (h : s.step = .ok (ts, s')) (hstart : s'.atLineStart = true) : s'.brackets = [] := by
  obtain ⟨layout, mid, us, hopens, hr, rfl⟩ := step_reads h
  obtain ⟨lexeme, n, hpass⟩ := readLexeme_passes hr
  cases hmid : mid.atLineStart with
  | false => exact hpass.brackets_of_within hmid hstart
  | true =>
    have hnone : mid.brackets = [] := hopens.brackets.trans (hb (hopens.line hmid))
    apply (hpass.lines_of_blank hmid hnone _).2
    rw [hopens.rest]
    exact hopens.blank hb hmid

/-- A step with a solid token reads its lexeme, which is no trivia, behind some layout. -/
theorem step_solid (h : s.step = .ok (ts, s')) (ht : t ∈ ts) (hsolid : t.kind.isSolid = true) :
    ∃ layout mid lexeme n, s.Opens layout mid ∧ mid.Passes lexeme n [t] s' ∧ ts = layout ++ [t] ∧
      lexeme ≠ .gap ∧ lexeme ≠ .lineEnd ∧
      t.span = ⟨s.position s.offset, s.position s'.offset⟩ := by
  obtain ⟨layout, mid, us, hopens, hr, rfl⟩ := step_reads h
  obtain ⟨lexeme, n, hpass⟩ := readLexeme_passes hr
  have hus : t ∈ us := by
    refine (List.mem_append.1 ht).resolve_left fun hlayout => ?_
    rw [hopens.plain t hlayout] at hsolid
    exact Bool.noConfusion hsolid
  have hend : lexeme ≠ .lineEnd := by
    rintro rfl
    have hlayout := layout_of_readLexeme hr hpass.next hus
    rw [if_pos rfl, hsolid] at hlayout
    exact Bool.noConfusion hlayout.1
  rcases hpass.emits with ⟨rfl, -⟩ | ⟨hgap, u, rfl, hspan, -⟩
  · simp at hus
  · obtain rfl := List.mem_singleton.1 hus
    exact ⟨layout, mid, lexeme, n, hopens, hpass, rfl, hgap, hend,
      by rw [hspan, position_congr hopens.file, hopens.offset]⟩

/-- A solid token is the last one of its step, and it ends where the step does. -/
structure Ends (s : Scanner) (t : Token) (ts : List Token) (s' : Scanner) : Prop where
  last : ∀ before after, ts = before ++ t :: after → after = []
  span : t.span = ⟨s.position s.offset, s.position s'.offset⟩
  next : ∀ n, Lexeme.next? s.rest ≠ some (.gap, n)
  within : (s.atLineStart = true → s.brackets = []) → s'.atLineStart = false

theorem step_ends (h : s.step = .ok (ts, s')) (ht : t ∈ ts) (hsolid : t.kind.isSolid = true) :
    s.Ends t ts s' := by
  obtain ⟨layout, mid, lexeme, n, hopens, hpass, rfl, hgap, hend, hspan⟩ := step_solid h ht hsolid
  refine ⟨fun before after hts => ?_, hspan, fun k hk => ?_, fun hb => ?_⟩
  · rcases append_eq_append_cons hts with ⟨ds, -, hds⟩ | ⟨ds, hlayout, -⟩
    · have hlength := congrArg List.length hds
      simp only [List.length_append, List.length_cons, List.length_nil] at hlength
      exact List.eq_nil_of_length_eq_zero (by omega)
    · have hnone := hopens.plain t (by simp [hlayout])
      rw [hsolid] at hnone
      exact Bool.noConfusion hnone
  · rw [← hopens.rest, hpass.next] at hk
    cases hk
    exact hgap rfl
  · cases hmid : mid.atLineStart with
    | false => simp [hpass.atLineStart, hmid, hend]
    | true =>
      -- a blank line has no token but its end
      have hblank := hopens.blank hb hmid
      rw [← hopens.rest] at hblank
      rcases next?_of_blank hblank hpass.next with heq | ⟨heq, -⟩
      · exact absurd heq hend
      · exact absurd heq hgap

/-- Up to a token of its layout a step has only layout, and it begins outside brackets. -/
theorem plain_of_step {before after : List Token} (h : s.step = .ok (ts, s'))
    (hts : ts = before ++ t :: after) (hlayout : t.kind.isSolid = false) :
    s.brackets = [] ∧ ∀ u ∈ before ++ [t], u.kind.isSolid = false := by
  obtain ⟨layout, mid, us, hopens, hr, hsplit⟩ := step_reads h
  rw [hsplit] at hts
  rcases append_eq_append_cons hts with ⟨ds, rfl, hus⟩ | ⟨ds, rfl, -⟩
  · obtain ⟨lexeme, n, hpass⟩ := readLexeme_passes hr
    have ht := layout_of_readLexeme hr hpass.next (t := t) (by simp [hus])
    have hend : lexeme = .lineEnd := by
      by_contra hne
      rw [if_neg hne, hlayout] at ht
      exact Bool.noConfusion ht
    rw [if_pos hend] at ht
    refine ⟨hopens.brackets ▸ ht.2, fun u hu => ?_⟩
    rw [List.append_assoc] at hu
    rcases List.mem_append.1 hu with hu | hu
    · exact hopens.plain u hu
    · have hmem : u ∈ us := by
        rw [hus]
        simp only [List.mem_append, List.mem_cons, List.not_mem_nil, or_false] at hu ⊢
        tauto
      have hu' := layout_of_readLexeme hr hpass.next hmem
      rw [if_pos hend] at hu'
      exact hu'.1
  · refine ⟨hopens.outside (by simp), fun u hu => hopens.plain u ?_⟩
    simp only [List.mem_append, List.mem_cons, List.not_mem_nil, or_false] at hu ⊢
    tauto

/-- No token of a step begins behind it, and where no gap is read none begins at its end. -/
theorem start_of_step (h : s.step = .ok (ts, s')) (ht : t ∈ ts) : t.span.start.offset ≤ s'.offset ∧
    ((∀ n, Lexeme.next? s.rest ≠ some (.gap, n)) → t.span.start.offset < s'.offset) := by
  obtain ⟨layout, mid, us, hopens, hr, rfl⟩ := step_reads h
  obtain ⟨lexeme, n, hpass⟩ := readLexeme_passes hr
  obtain ⟨hpos, hle⟩ := Lexeme.next?_bounds hpass.next
  have hskip := hpass.skips.add_le hle
  rw [hopens.offset] at hskip
  rcases List.mem_append.1 ht with ht | ht
  · have hstart := hopens.start_le t ht
    by_cases hi : indentation s.rest = []
    · rw [hi, List.length_nil] at hstart
      exact ⟨by omega, fun _ => by omega⟩
    · -- the gap that comes next reaches behind the indentation
      rw [← hopens.rest] at hi hstart
      obtain ⟨rfl, rfl⟩ := next?_of_indentation hpass.next hi
      have hgap := indentation_le_countWhile mid.rest
      refine ⟨by omega, fun hnone => ?_⟩
      rw [← hopens.rest] at hnone
      exact absurd hpass.next (hnone _)
  · rcases hpass.emits with ⟨rfl, -⟩ | ⟨-, u, rfl, hspan, -⟩
    · simp at ht
    · have hstart : (mid.position s.offset).offset ≤ s.offset := Position.offset_ofOffset_le _ _
      rw [List.mem_singleton.1 ht, hspan, hopens.offset]
      exact ⟨by dsimp only; omega, fun _ => by dsimp only; omega⟩

/-- Steps from one scanner to another, with the tokens that they emit, the last of which reads no
gap. -/
inductive Arrives : Scanner → List Token → Scanner → Prop where
  | here (s : Scanner) : Arrives s [] s
  | step {s s' m : Scanner} {ts us : List Token} (first : s.step = .ok (ts, s'))
      (more : Arrives s' us m)
      (gap : ∀ n, Lexeme.next? s.rest = some (.gap, n) → m.rest.length < s'.rest.length) :
      Arrives s (ts ++ us) m

namespace Arrives

theorem reaches (h : Arrives s us m) : Reaches s us m := by
  induction h with
  | here s => exact .refl s
  | step first _ _ ih => exact .step first ih

theorem length_le (h : Arrives s us m) : m.rest.length ≤ s.rest.length := by
  induction h with
  | here s => exact Nat.le_refl _
  | step first _ _ ih => exact Nat.le_trans ih (Nat.le_of_lt (length_step first))

/-- Each character has a byte at least. -/
theorem add_length_le (h : Arrives s us m) :
    s.offset + s.rest.length ≤ m.offset + m.rest.length := by
  induction h with
  | here s => exact Nat.le_refl _
  | step first _ _ ih =>
    obtain ⟨lexeme, n, hn, -, hskips, -⟩ := next?_of_step first
    have hle := (Lexeme.next?_bounds hn).2
    have hoffset := hskips.add_le hle
    have hlength := congrArg List.length hskips.rest
    rw [List.length_drop] at hlength
    omega

/-- What has been emitted begins before the place. -/
theorem start_lt (h : Arrives s us m) : ∀ t ∈ us, t.span.start.offset < m.offset := by
  induction h with
  | here => simp
  | @step s s' m ts us first more gap ih =>
    intro t ht
    rcases List.mem_append.1 ht with ht | ht
    · obtain ⟨hstart, hstrict⟩ := start_of_step first ht
      have hoffset := more.add_length_le
      have hlength := more.length_le
      by_cases hgap : ∃ n, Lexeme.next? s.rest = some (.gap, n)
      · obtain ⟨n, hn⟩ := hgap
        have hshort := gap n hn
        omega
      · have hlt := hstrict fun n hn => hgap ⟨n, hn⟩
        omega
    · exact ih t ht

end Arrives

/-- The step that follows when a run begins with a step. -/
theorem run_of_step {vs : List Token} (h : s.step = .ok (ts, s')) (hrun : s.run = .ok (ts ++ vs)) :
    s'.run = .ok vs := by
  obtain ⟨_, _, more, hstep, hmore, heq⟩ := (run_ok (rest_ne_nil_of_step h)).1 hrun
  rw [h] at hstep
  cases hstep
  rw [List.append_cancel_left heq]
  exact hmore

/-- Behind a string no other one opens if the tokens are detached. -/
theorem opens_behind_string {more : List Token} (hn : Lexeme.next? s.rest = some (.string, n))
    (h : s.step = .ok (ts, s')) (hrun : s'.run = .ok more) (hd : Detached (ts ++ more)) :
    Quotation.opens s'.rest = false := by
  rw [← Bool.not_eq_true]
  intro ho
  obtain ⟨⟨vs, t, rfl, ht⟩, -, hline⟩ := step_of_string hn h
  have hne : s'.rest ≠ [] := by
    obtain ⟨c, ds, hrest, -⟩ := Quotation.exists_cons_of_opens ho
    simp [hrest]
  obtain ⟨_, s'', others, hstep', -, rfl⟩ := (run_ok hne).1 hrun
  obtain ⟨u, rfl, hu⟩ := step_of_opens ho hline hstep'
  have htspan := (step_ends h (t := t) (by simp) (by simp [ht])).span
  have huspan := (step_ends hstep' (t := u) (by simp) (by simp [hu])).span
  have hne := (List.isChain_append.1 hd).2.2 t (by simp) u (by simp) ht hu
  rw [htspan, huspan, position_congr (file_step h).1] at hne
  exact hne rfl

/-- A step before a place is the same whatever trivia stands behind the place. -/
theorem step_cut {r : List Char} (hx : Stops x) (h : s.step = .ok (ts, s'))
    (hrest : s.rest = w ++ r) (hlength : r.length ≤ s'.rest.length)
    (gap : ∀ n, Lexeme.next? s.rest = some (.gap, n) → r.length < s'.rest.length)
    (string : ∀ n, Lexeme.next? s.rest = some (.string, n) → Quotation.opens s'.rest = false) :
    ∃ v, s'.rest = v ++ r ∧ (s.facing (w ++ x)).step = .ok (ts, s'.facing (v ++ x)) ∧
      ∀ n, Lexeme.next? (w ++ x) = some (.gap, n) → x.length < (v ++ x).length := by
  obtain ⟨lexeme, n, hn, hclosed, hskips, -⟩ := next?_of_step h
  have hbound := (Lexeme.next?_bounds hn).2
  rw [hskips.rest, List.length_drop] at hlength
  rw [hrest, List.length_append] at hlength hbound
  have hle : n ≤ w.length := by
    by_cases hr : r = []
    · simpa [hr] using hbound
    · have hpos := List.length_pos_iff.2 hr
      omega
  have hbehind : s'.rest = w.drop n ++ r := by
    rw [hskips.rest, hrest, List.drop_append_of_le_length hle]
  have hgap : lexeme = .gap → n < w.length := by
    rintro rfl
    have hshort := gap n hn
    rw [hbehind, List.length_append, List.length_drop] at hshort
    omega
  have hstring : lexeme = .string → Quotation.opens ((w ++ r).drop n) = false := by
    rintro rfl
    rw [← hrest, ← hskips.rest]
    exact string n hn
  rw [hrest] at hn
  have hn' := Lexeme.next?_cut hx hn hle hclosed hgap hstring
  have hs : s.facing (w ++ r) = s := by rw [← hrest, facing_rest]
  refine ⟨w.drop n, hbehind, step_facing hn hn' hle hgap (hs.symm ▸ h), fun k hk => ?_⟩
  rw [hn'] at hk
  cases hk
  have hlt := hgap rfl
  rw [List.length_append, List.length_drop]
  omega

/-- The way to a place is the same whatever trivia stands behind the place. -/
theorem Arrives.facing {vs : List Token} (hx : Stops x) (h : Arrives s us m)
    (hrest : s.rest = w ++ m.rest) (hrun : s.run = .ok (us ++ vs)) (hd : Detached (us ++ vs)) :
    Arrives (s.facing (w ++ x)) us (m.facing x) := by
  induction h generalizing w with
  | here s =>
    have hw : w = [] := by simpa using hrest
    rw [hw, List.nil_append]
    exact .here _
  | @step s s' m ts us first more gap ih =>
    rw [List.append_assoc] at hrun hd
    have hrun' := run_of_step first hrun
    obtain ⟨v, hbehind, hstep, hgap⟩ := step_cut hx first hrest more.length_le gap
      fun n hn => opens_behind_string hn first hrun' hd
    exact .step hstep (ih hbehind hrun' (List.isChain_append.1 hd).2.1) hgap

/-- The end of a source has no solid token. -/
theorem finish_plain (s : Scanner) : ∀ t ∈ s.finish, t.kind.isSolid = false := by
  intro t ht
  rcases List.mem_append.1 ht with ht | ht
  · rcases List.mem_append.1 ht with ht | ht
    · split at ht
      · rw [List.mem_singleton.1 ht]
        rfl
      · simp at ht
    · rw [List.eq_of_mem_replicate ht]
      rfl
  · rw [List.mem_singleton.1 ht]
    rfl

/-- Where a run has a solid token the scanner comes to the end of the token. -/
theorem arrives_at {source : List Char} {before after : List Token} (hs : At source s)
    (hb : s.atLineStart = true → s.brackets = []) (h : s.run = .ok (before ++ t :: after))
    (hsolid : t.kind.isSolid = true) :
    ∃ m, Arrives s (before ++ [t]) m ∧ m.rest.length < s.rest.length ∧ m.run = .ok after ∧
      m.offset = t.span.stop.offset ∧ m.atLineStart = false := by
  generalize hts : before ++ t :: after = ts at h
  induction h using run_induction generalizing before with
  | finish s hr =>
    have hplain := finish_plain s t (by simp [← hts])
    rw [hplain] at hsolid
    exact Bool.noConfusion hsolid
  | step s first s' more hr hstep hrun ih =>
    have hlt := length_step hstep
    rcases append_eq_append_cons hts.symm with ⟨ds, rfl, hmore⟩ | ⟨ds, hfirst, hafter⟩
    · obtain ⟨m, harrive, hlength, hm⟩ :=
        ih (step_fills hs hstep).1 (brackets_of_atLineStart hb hstep) hmore.symm
      refine ⟨m, ?_, Nat.lt_trans hlength hlt, hm⟩
      rw [List.append_assoc]
      exact .step hstep harrive fun _ _ => hlength
    · have hends := step_ends hstep (t := t) (by simp [hfirst]) hsolid
      obtain rfl := hends.last before ds hfirst
      have harrive := Arrives.step hstep (.here s') fun n hn => absurd hn (hends.next n)
      rw [List.append_nil, hfirst] at harrive
      have hstop := (step_fills hs hstep).1.offset_position s
      refine ⟨s', harrive, hlt, ?_, by rw [hends.span, hstop], hends.within hb⟩
      rw [hafter]
      exact hrun

namespace Reaches

theorem openBehind? (h : Reaches s us m) :
    BuildTyping.openBehind? s.brackets us = some m.brackets := by
  induction h with
  | refl => rfl
  | step first _ ih => rw [openBehind?_append, openBehind?_step first, Option.bind_some, ih]

theorem depth (h : Reaches s us m) : m.brackets.length = depthAfter s.brackets.length us :=
  (depthAfter_of_openBehind? h.openBehind?).symm

/-- A token with an open bracket behind it is no layout. -/
theorem isSolid (h : Reaches s us m) (hus : us = before ++ t :: after)
    (hdepth : 0 < depthAfter s.brackets.length (before ++ [t])) : t.kind.isSolid = true := by
  induction h generalizing before with
  | refl => simp at hus
  | @step s s' m first more hstep _ ih =>
    rcases append_eq_append_cons hus with ⟨ds, rfl, hmore⟩ | ⟨ds, hfirst, -⟩
    · refine ih hmore ?_
      rwa [List.append_assoc, depthAfter_append, ← depth_step hstep] at hdepth
    · by_contra hlayout
      obtain ⟨hb, hplain⟩ := plain_of_step hstep hfirst (by simpa using hlayout)
      rw [depthAfter_of_layout hplain, hb] at hdepth
      exact absurd hdepth (Nat.lt_irrefl 0)

end Reaches

/-- A solid token of a run is emitted before the end of the source. -/
theorem split_of_isSolid (hts : us ++ m.finish = before ++ t :: after)
    (ht : t.kind.isSolid = true) :
    ∃ inner, us = before ++ t :: inner ∧ after = inner ++ m.finish := by
  rcases append_eq_append_cons hts with ⟨ds, -, hfinish⟩ | hsplit
  · have hplain := finish_plain m t (by simp [hfinish])
    rw [hplain] at ht
    cases ht
  · exact hsplit

/-- A token is solid if a bracket is open behind it and a solid token comes later. -/
theorem isSolid_of_depth {before after : List Token} (h : s.run = .ok (before ++ t :: after))
    (hdepth : 0 < depthAfter s.brackets.length (before ++ [t]))
    (hmore : ∃ u ∈ after, u.kind.isSolid = true) : t.kind.isSolid = true := by
  obtain ⟨us, m, hreach, -, hts⟩ := exists_finish h
  obtain ⟨u, hu, hsolid⟩ := hmore
  rcases append_eq_append_cons hts.symm with ⟨ds, -, hfinish⟩ | ⟨ds, hus, -⟩
  · have hplain := finish_plain m u (by simp [hfinish, hu])
    rw [hplain] at hsolid
    cases hsolid
  · exact hreach.isSolid hus hdepth

/-- Outside brackets a line end leads to the start of a line. -/
theorem atLineStart_of_step (hn : Lexeme.next? s.rest = some (.lineEnd, n)) (hb : s.brackets = [])
    (h : s.step = .ok (ts, s')) :
    s'.atLineStart = true ∧ s'.brackets = [] ∧ s'.lineOpen = false := by
  have hopen := (step_of_lineEnd hn (by simp [hb]) h).2
  obtain ⟨layout, mid, us, hopens, hr, rfl⟩ := step_reads h
  obtain ⟨lexeme, k, hpass⟩ := readLexeme_passes hr
  have hnext := hpass.next
  rw [hopens.rest, hn] at hnext
  cases hnext
  have hmid : mid.brackets = [] := hopens.brackets.trans hb
  refine ⟨by simp [hpass.atLineStart, hmid], ?_, hopen⟩
  rw [← List.length_eq_zero_iff, hpass.depth, hmid]
  rfl

/-- Where a line starts the scanner comes to with no bracket and no line open. -/
theorem arrives_line {p : Nat} (h : s.run = .ok ts)
    (hp : p ∈ lineStartsAfter s.offset s.brackets.length s.rest) :
    ∃ us m vs, ts = us ++ vs ∧ Arrives s us m ∧ m.rest.length < s.rest.length ∧ m.run = .ok vs ∧
      m.offset = p ∧ m.atLineStart = true ∧ m.brackets = [] ∧ m.lineOpen = false := by
  induction h using run_induction with
  | finish s hr =>
    rw [hr, lineStartsAfter] at hp
    simp [Lexeme.next?] at hp
  | step s first s' more hr hstep hrun ih =>
    have hlt := length_step hstep
    obtain ⟨lexeme, n, hn, hclosed, hskips, hdepth⟩ := next?_of_step hstep
    rw [lineStartsAfter_of_next? hn hclosed, ← hskips.offset, ← hskips.rest, ← hdepth] at hp
    rcases List.mem_append.1 hp with hhere | hlater
    · split at hhere
      · rename_i hline
        obtain ⟨rfl, hb⟩ := hline
        obtain ⟨hstart, hb', hopen⟩ :=
          atLineStart_of_step hn (List.length_eq_zero_iff.1 hb) hstep
        refine ⟨first, s', more, rfl, ?_, hlt, hrun, ?_, hstart, hb', hopen⟩
        · have harrive := Arrives.step hstep (.here s') fun k hk => by simp [hn] at hk
          rwa [List.append_nil] at harrive
        · exact (List.mem_singleton.1 hhere).symm
      · simp at hhere
    · obtain ⟨us, m, vs, rfl, harrive, hlength, hm⟩ := ih hlater
      refine ⟨first ++ us, m, vs, by simp, ?_, Nat.lt_trans hlength hlt, hm⟩
      exact .step hstep harrive fun _ _ => hlength

end Scanner

end BuildTyping
