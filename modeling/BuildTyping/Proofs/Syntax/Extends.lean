import BuildTyping.Syntax.Stmt

/-!
# Programs that go on

A statement goes on at its end when statements are added after the last ones in it: to a body that
is still open, or to another branch. Nothing before that changes but the ends of spans.
-/

namespace BuildTyping

namespace Stmt

variable {P : Expr → Prop}

mutual

/-- The second statement is the first one with more at its end, where `P` holds of the outermost
expressions that are added. -/
inductive Extends (P : Expr → Prop) : Stmt → Stmt → Prop where
  | refl (s : Stmt) : Extends P s s
  | define {span span' : Span} {name : String} {parameters : List Parameter}
      {body body' : List Stmt} (h : BlockExtends P body body') :
      Extends P ⟨span, .define name parameters body⟩ ⟨span', .define name parameters body'⟩
  | loop {span span' : Span} {target iterable : Expr} {body body' : List Stmt}
      (h : BlockExtends P body body') :
      Extends P ⟨span, .loop target iterable body⟩ ⟨span', .loop target iterable body'⟩
  /-- The body goes on, and another branch may follow it. -/
  | body {span span' : Span} {condition : Expr} {body body' other : List Stmt}
      (h : BlockExtends P body body') (added : ∀ e ∈ other.flatMap roots, P e) :
      Extends P ⟨span, .branch condition body []⟩ ⟨span', .branch condition body' other⟩
  | other {span span' : Span} {condition : Expr} {body other other' : List Stmt}
      (h : BlockExtends P other other') :
      Extends P ⟨span, .branch condition body other⟩ ⟨span', .branch condition body other'⟩

/-- Of the statements of a block the last one may go on, and others may follow. -/
inductive BlockExtends (P : Expr → Prop) : List Stmt → List Stmt → Prop where
  | nil {ss : List Stmt} (added : ∀ e ∈ ss.flatMap roots, P e) : BlockExtends P [] ss
  | last {s s' : Stmt} {ss : List Stmt} (h : Extends P s s')
      (added : ∀ e ∈ ss.flatMap roots, P e) : BlockExtends P [s] (s' :: ss)
  | cons (s : Stmt) {ss ss' : List Stmt} (h : BlockExtends P ss ss') :
      BlockExtends P (s :: ss) (s :: ss')

end

mutual

/-- The outermost expressions stay as they are, and those that are added come after them. -/
theorem Extends.roots_append : ∀ {s s' : Stmt}, Extends P s s' →
    ∃ es, s'.roots = s.roots ++ es ∧ ∀ e ∈ es, P e
  | _, _, .refl s => ⟨[], by simp⟩
  | _, _, .define h | _, _, .loop h | _, _, .other h => by
    obtain ⟨es, hes, hP⟩ := h.roots_append
    exact ⟨es, by simp [roots_eq, Form.exprs, Form.bodies, hes], hP⟩
  | _, _, @Extends.body _ _ _ _ _ _ other h added => by
    obtain ⟨es, hes, hP⟩ := h.roots_append
    exact ⟨es ++ other.flatMap roots, by simp [roots_eq, Form.exprs, Form.bodies, hes],
      List.forall_mem_append.2 ⟨hP, added⟩⟩

theorem BlockExtends.roots_append : ∀ {ss ss' : List Stmt}, BlockExtends P ss ss' →
    ∃ es, ss'.flatMap roots = ss.flatMap roots ++ es ∧ ∀ e ∈ es, P e
  | _, _, .nil added => ⟨_, rfl, added⟩
  | _, _, @BlockExtends.last _ _ _ ss h added => by
    obtain ⟨es, hes, hP⟩ := h.roots_append
    exact ⟨es ++ ss.flatMap roots, by simp [hes], List.forall_mem_append.2 ⟨hP, added⟩⟩
  | _, _, .cons s h => by
    obtain ⟨es, hes, hP⟩ := h.roots_append
    exact ⟨es, by simp [hes], hP⟩

end

end Stmt

end BuildTyping
