import BuildTyping.Proofs.Token.Block
import BuildTyping.Proofs.Token.Line

/-!
# The off-side rule

What the lines of a source ask of the tokens that begin and end its blocks. These nest, and how
many blocks are open before a line is told by the widths of the lines up to it.
-/

namespace BuildTyping

/-- How many of the tokens are of the kind. -/
def tally (kind : TokenKind) (ts : List Token) : Nat := ts.countP (·.kind == kind)

theorem tally_cons (kind : TokenKind) (t : Token) (ts : List Token) :
    tally kind (t :: ts) = tally kind ts + if t.kind = kind then 1 else 0 := by
  simp [tally, List.countP_cons]

/-- The tokens lead from `m` open blocks to `n`, and end none that is not open. -/
inductive Nests : Nat → List Token → Nat → Prop where
  | nil {n : Nat} : Nests n [] n
  | indent {m n : Nat} {t : Token} {ts : List Token} (kind : t.kind = .indent)
      (rest : Nests (m + 1) ts n) : Nests m (t :: ts) n
  | dedent {m n : Nat} {t : Token} {ts : List Token} (kind : t.kind = .dedent)
      (rest : Nests m ts n) : Nests (m + 1) (t :: ts) n
  | plain {m n : Nat} {t : Token} {ts : List Token}
      (kind : t.kind ≠ .indent ∧ t.kind ≠ .dedent) (rest : Nests m ts n) : Nests m (t :: ts) n

namespace Nests

variable {k m n : Nat} {t : Token} {ts us : List Token}

theorem append (h : Nests k ts m) (h' : Nests m us n) : Nests k (ts ++ us) n := by
  induction h with
  | nil => exact h'
  | indent kind _ ih => exact .indent kind (ih h')
  | dedent kind _ ih => exact .dedent kind (ih h')
  | plain kind _ ih => exact .plain kind (ih h')

theorem of_append (h : Nests k (ts ++ us) n) : ∃ m, Nests k ts m ∧ Nests m us n := by
  induction ts generalizing k with
  | nil => exact ⟨k, .nil, h⟩
  | cons t ts ih =>
    cases h with
    | indent kind rest =>
      obtain ⟨m, hts, hus⟩ := ih rest
      exact ⟨m, .indent kind hts, hus⟩
    | dedent kind rest =>
      obtain ⟨m, hts, hus⟩ := ih rest
      exact ⟨m, .dedent kind hts, hus⟩
    | plain kind rest =>
      obtain ⟨m, hts, hus⟩ := ih rest
      exact ⟨m, .plain kind hts, hus⟩

theorem of_plain (h : ∀ t ∈ ts, t.kind ≠ .indent ∧ t.kind ≠ .dedent) : Nests n ts n := by
  induction ts with
  | nil => exact .nil
  | cons t ts ih =>
    obtain ⟨ht, hts⟩ := List.forall_mem_cons.1 h
    exact .plain ht (ih hts)

theorem dedents (hle : n ≤ m) (kind : t.kind = .dedent) :
    Nests m (List.replicate (m - n) t) n := by
  obtain ⟨k, rfl⟩ := Nat.exists_eq_add_of_le hle
  rw [Nat.add_sub_cancel_left]
  induction k with
  | zero => exact .nil
  | succ k ih => exact .dedent kind (ih (Nat.le_add_right n k))

/-- The tokens that begin a block and those that end one account for the difference. -/
theorem tally_eq (h : Nests m ts n) : m + tally .indent ts = n + tally .dedent ts := by
  induction h with
  | nil => rfl
  | indent kind _ ih =>
    rw [tally_cons, tally_cons, if_pos kind, if_neg (by simp [kind])]
    omega
  | dedent kind _ ih =>
    rw [tally_cons, tally_cons, if_pos kind, if_neg (by simp [kind])]
    omega
  | plain kind _ ih =>
    rw [tally_cons, tally_cons, if_neg kind.1, if_neg kind.2]
    exact ih

end Nests

/-- The tokens at the head of a line end where its first character begins, and do to the blocks
what the line asks. A block begins with one token. -/
structure Heads (l : LogicalLine) (blocks blocks' : List Nat) (ts : List Token) : Prop where
  restacks : Restacks l.width blocks blocks'
  nests : Nests blocks.length ts blocks'.length
  stop : ∀ t ∈ ts, t.span.stop.offset = l.first
  indent : blocks.headD 0 < l.width → ∃ t, ts = [t] ∧ t.kind = .indent
  plain : ¬blocks.headD 0 < l.width → ∀ t ∈ ts, t.kind ≠ .indent

/-- The tokens that begin a block. -/
def indentsOf (ts : List Token) : List Token := ts.filter (·.kind = .indent)

theorem indentsOf_append (ts us : List Token) :
    indentsOf (ts ++ us) = indentsOf ts ++ indentsOf us := List.filter_append ..

theorem indentsOf_eq_nil {ts : List Token} (h : ∀ t ∈ ts, t.kind ≠ .indent) :
    indentsOf ts = [] :=
  List.filter_eq_nil_iff.2 fun t ht => by simpa using h t ht

theorem Heads.indents {l : LogicalLine} {blocks blocks' : List Nat} {ts : List Token}
    (h : Heads l blocks blocks' ts) : (indentsOf ts).map (·.span.stop.offset) =
      if blocks.headD 0 < l.width then [l.first] else [] := by
  split
  · rename_i hwider
    obtain ⟨t, rfl, ht⟩ := h.indent hwider
    have hstop := h.stop t (by simp)
    simp [indentsOf, ht, hstop]
  · rename_i hwider
    rw [indentsOf_eq_nil (h.plain hwider), List.map_nil]

/-- The tokens from a place on where these blocks are open and these lines lie ahead. -/
inductive Offside : List Nat → List LogicalLine → List Token → Prop where
  | finish {blocks : List Nat} {ts : List Token} (nests : Nests blocks.length ts 0)
      (ends : ∀ t ∈ ts, t.kind ≠ .indent) : Offside blocks [] ts
  | within {blocks : List Nat} {lines : List LogicalLine} {ts us : List Token}
      (plain : ∀ t ∈ ts, t.kind ≠ .indent ∧ t.kind ≠ .dedent)
      (ahead : ∀ t ∈ ts, ∀ l ∈ lines, t.span.stop.offset ≤ l.first)
      (rest : Offside blocks lines us) : Offside blocks lines (ts ++ us)
  | line {blocks blocks' : List Nat} {l : LogicalLine} {lines : List LogicalLine}
      {ts us : List Token} (heads : Heads l blocks blocks' ts)
      (ahead : ∀ l' ∈ lines, l.first ≤ l'.first)
      (behind : ∀ u ∈ us, l.first ≤ u.span.start.offset ∧ l.first < u.span.stop.offset)
      (rest : Offside blocks' lines us) : Offside blocks (l :: lines) (ts ++ us)

/-- The fault of the first of the lines ahead that nothing can be made of. -/
inductive Breaks : List Nat → List LogicalLine → Fault → Prop where
  | here {blocks : List Nat} {l : LogicalLine} {lines : List LogicalLine} {fault : Fault}
      (none : ¬∃ blocks', Restacks l.width blocks blocks') (at_first : fault.offset = l.first) :
      Breaks blocks (l :: lines) fault
  | later {blocks blocks' : List Nat} {l : LogicalLine} {lines : List LogicalLine} {fault : Fault}
      (restacks : Restacks l.width blocks blocks') (rest : Breaks blocks' lines fault) :
      Breaks blocks (l :: lines) fault

/-- Of the lines those that are wider than the line before them, the first of which stands behind
a line of width `w`. -/
def widerLines (w : Nat) : List LogicalLine → List LogicalLine
  | [] => []
  | l :: lines => if w < l.width then l :: widerLines l.width lines else widerLines l.width lines

/-- Of the lines behind others none is a misfit. -/
def AllFit (past : List LogicalLine) : List LogicalLine → Prop
  | [] => True
  | l :: lines => ¬Misfit (past.map (·.width)) l.width ∧ AllFit (past ++ [l]) lines

theorem allFit_iff {past lines : List LogicalLine} : AllFit past lines ↔
    ∀ before l after, lines = before ++ l :: after →
      ¬Misfit ((past ++ before).map (·.width)) l.width := by
  induction lines generalizing past with
  | nil => simp [AllFit]
  | cons l lines ih =>
    rw [AllFit, ih]
    constructor
    · rintro ⟨hl, hlines⟩ before m after h
      cases before with
      | nil =>
        obtain ⟨rfl, -⟩ := List.cons.inj h
        simpa using hl
      | cons b before =>
        obtain ⟨rfl, hlines'⟩ := List.cons.inj h
        simpa using hlines before m after hlines'
    · intro h
      refine ⟨by simpa using h [] l lines rfl, fun before m after hm => ?_⟩
      simpa using h (l :: before) m after (by rw [hm, List.cons_append])

namespace Offside

variable {blocks : List Nat} {past lines : List LogicalLine} {ts : List Token}

theorem nests (h : Offside blocks lines ts) : Nests blocks.length ts 0 := by
  induction h with
  | finish nests => exact nests
  | within plain _ _ ih => exact (Nests.of_plain plain).append ih
  | line heads _ _ _ ih => exact heads.nests.append ih

/-- A block begins with each line that is wider than the one before it, and nowhere else. -/
theorem indents (h : Offside blocks lines ts) :
    (indentsOf ts).map (·.span.stop.offset) =
      (widerLines (blocks.headD 0) lines).map (·.first) := by
  induction h with
  | finish _ ends => rw [indentsOf_eq_nil ends, widerLines, List.map_nil, List.map_nil]
  | within plain _ _ ih =>
    rw [indentsOf_append, indentsOf_eq_nil fun t ht => (plain t ht).1, List.nil_append, ih]
  | line heads _ _ _ ih =>
    rw [indentsOf_append, List.map_append, heads.indents, ih, heads.restacks.headD, widerLines]
    split <;> rfl

theorem fits (h : Offside blocks lines ts) (htracks : Tracks (past.map (·.width)) blocks) :
    AllFit past lines := by
  induction h generalizing past with
  | finish => trivial
  | within _ _ _ ih => exact ih htracks
  | line heads _ _ _ ih =>
    refine ⟨fun hmisfit => htracks.misfit_iff.1 hmisfit ⟨_, heads.restacks⟩, ih ?_⟩
    rw [List.map_append]
    exact htracks.restacks heads.restacks

/-- The tokens part before each line. The widths up to the line tell the blocks that are open
between the parts, and where it is wider than the last one the first part ends with a block that
begins. -/
theorem part {before after : List LogicalLine} {l : LogicalLine} (h : Offside blocks lines ts)
    (htracks : Tracks (past.map (·.width)) blocks) (hlines : lines = before ++ l :: after) :
    ∃ us vs blocks', ts = us ++ vs ∧ (∀ u ∈ us, u.span.stop.offset ≤ l.first) ∧
      (∀ v ∈ vs, l.first ≤ v.span.start.offset ∧ l.first < v.span.stop.offset) ∧
      Nests blocks.length us blocks'.length ∧
      Tracks ((past ++ before ++ [l]).map (·.width)) blocks' ∧
      (((past ++ before).map (·.width)).getLastD 0 < l.width →
        ∃ us' u, us = us' ++ [u] ∧ u.kind = .indent) := by
  induction h generalizing past before with
  | finish => simp at hlines
  | @within blocks lines ts rest plain ahead _ ih =>
    obtain ⟨us, vs, blocks', rfl, hus, hvs, hnests, htracks', hwider⟩ := ih htracks hlines
    refine ⟨ts ++ us, vs, blocks', by simp, ?_, hvs, (Nests.of_plain plain).append hnests,
      htracks', fun h => ?_⟩
    · exact List.forall_mem_append.2 ⟨fun t ht => ahead t ht l (by simp [hlines]), hus⟩
    · obtain ⟨us', u, rfl, hu⟩ := hwider h
      exact ⟨ts ++ us', u, by simp, hu⟩
  | @line blocks blocks' m lines ts rest heads ahead behind _ ih =>
    have hstack : Tracks ((past ++ [m]).map (·.width)) blocks' := by
      rw [List.map_append]
      exact htracks.restacks heads.restacks
    cases before with
    | nil =>
      obtain ⟨rfl, rfl⟩ := List.cons.inj hlines
      refine ⟨ts, rest, blocks', rfl, fun t ht => Nat.le_of_eq (heads.stop t ht), behind,
        heads.nests, by simpa using hstack, fun h => ?_⟩
      rw [List.append_nil, ← htracks.headD_eq] at h
      obtain ⟨t, rfl, ht⟩ := heads.indent h
      exact ⟨[], t, rfl, ht⟩
    | cons b before =>
      obtain ⟨rfl, rfl⟩ := List.cons.inj hlines
      obtain ⟨us, vs, blocks'', rfl, hus, hvs, hnests, htracks', hwider⟩ := ih hstack rfl
      refine ⟨ts ++ us, vs, blocks'', by simp, ?_, hvs, heads.nests.append hnests,
        by simpa using htracks', fun h => ?_⟩
      · refine List.forall_mem_append.2 ⟨fun t ht => ?_, hus⟩
        rw [heads.stop t ht]
        exact ahead l (by simp)
      · obtain ⟨us', u, rfl, hu⟩ := hwider (by simpa using h)
        exact ⟨ts ++ us', u, by simp, hu⟩

end Offside

/-- The first line that nothing can be made of is the first misfit. -/
theorem Breaks.misfit {blocks : List Nat} {past lines : List LogicalLine} {fault : Fault}
    (h : Breaks blocks lines fault) (htracks : Tracks (past.map (·.width)) blocks) :
    ∃ before l after, lines = before ++ l :: after ∧ AllFit past before ∧
      Misfit ((past ++ before).map (·.width)) l.width ∧
      fault.offset = l.first := by
  induction h generalizing past with
  | @here blocks l lines fault none at_first =>
    exact ⟨[], l, lines, rfl, trivial, by simpa using htracks.misfit_iff.2 none, at_first⟩
  | @later blocks blocks' l lines fault restacks _ ih =>
    have hstack : Tracks ((past ++ [l]).map (·.width)) blocks' := by
      rw [List.map_append]
      exact htracks.restacks restacks
    obtain ⟨before, m, after, rfl, hfits, hmisfit, hfault⟩ := ih hstack
    refine ⟨l :: before, m, after, rfl, ⟨fun hl => ?_, hfits⟩, by simpa using hmisfit, hfault⟩
    exact htracks.misfit_iff.1 hl ⟨blocks', restacks⟩

/-- What the lines of a source ask of its tokens. -/
structure FollowsLines (lines : List LogicalLine) (ts : List Token) : Prop where
  /-- As many blocks are open before the first token of a line as different widths last there,
  and a line that is wider than the one before it has the beginning of a block right before it. -/
  depth : ∀ before l after, lines = before ++ l :: after → ∃ us vs, ts = us ++ vs ∧
    (∀ u ∈ us, u.span.stop.offset ≤ l.first) ∧
    (∀ v ∈ vs, l.first ≤ v.span.start.offset ∧ l.first < v.span.stop.offset) ∧
    tally .indent us = tally .dedent us + (openWidths ((before ++ [l]).map (·.width))).card ∧
    ((before.map (·.width)).getLastD 0 < l.width → ∃ us' u, us = us' ++ [u] ∧ u.kind = .indent)
  /-- No other block begins. -/
  indents : (indentsOf ts).map (·.span.stop.offset) = (widerLines 0 lines).map (·.first)
  /-- Blocks end only after they began, and all of them end. -/
  nested : ∀ us vs, ts = us ++ vs → tally .dedent us ≤ tally .indent us
  closed : tally .dedent ts = tally .indent ts

theorem Offside.follows {lines : List LogicalLine} {ts : List Token} (h : Offside [] lines ts) :
    FollowsLines lines ts := by
  have hnests : Nests 0 ts 0 := h.nests
  have hnone : Tracks (([] : List LogicalLine).map (·.width)) [] := .nil
  refine ⟨fun before l after hlines => ?_, h.indents, fun us vs hts => ?_, ?_⟩
  · obtain ⟨us, vs, blocks', hts, hus, hvs, hdepth, htracks, hwider⟩ := h.part hnone hlines
    refine ⟨us, vs, hts, hus, hvs, ?_, hwider⟩
    have htally := hdepth.tally_eq
    have hlength := htracks.length
    rw [List.length_nil] at htally
    rw [List.nil_append] at hlength
    omega
  · rw [hts] at hnests
    obtain ⟨m, hus, -⟩ := hnests.of_append
    have htally := hus.tally_eq
    omega
  · have htally := hnests.tally_eq
    omega

/-- A run gives the tokens of the lines ahead, or breaks off at one of them. -/
def Obeys (blocks : List Nat) (lines : List LogicalLine) : Except Fault (List Token) → Prop
  | .ok ts => Offside blocks lines ts
  | .error fault => fault.cause = .inconsistentIndentation → Breaks blocks lines fault

namespace Obeys

variable {blocks blocks' : List Nat} {l : LogicalLine} {lines : List LogicalLine} {ts : List Token}
  {r : Except Fault (List Token)}

theorem within (h : Obeys blocks lines r) (plain : ∀ t ∈ ts, t.kind ≠ .indent ∧ t.kind ≠ .dedent)
    (ahead : ∀ t ∈ ts, ∀ l ∈ lines, t.span.stop.offset ≤ l.first) :
    Obeys blocks lines (r.map (ts ++ ·)) := by
  cases r with
  | ok us => exact .within plain ahead h
  | error fault => exact h

theorem line (h : Obeys blocks' lines r) (heads : Heads l blocks blocks' ts)
    (ahead : ∀ l' ∈ lines, l.first ≤ l'.first)
    (behind : ∀ us, r = .ok us →
      ∀ u ∈ us, l.first ≤ u.span.start.offset ∧ l.first < u.span.stop.offset) :
    Obeys blocks (l :: lines) (r.map (ts ++ ·)) := by
  cases r with
  | ok us => exact .line heads ahead (behind us rfl) h
  | error fault => exact fun hcause => .later heads.restacks (h hcause)

end Obeys

end BuildTyping
