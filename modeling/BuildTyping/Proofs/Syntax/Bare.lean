import BuildTyping.Syntax.Stmt

/-!
# Bare trees

A shape is taken to one of other parts place by place. An expression or a statement is bare when
it keeps no ids and no spans, which tell where it was read and not what it says.
-/

namespace BuildTyping

variable {α β γ : Type}

namespace Entry

def map (f : α → β) (entry : Entry α) : Entry β := ⟨f entry.key, f entry.value⟩

def attach (entry : Entry α) : Entry { a // a ∈ entry.parts } :=
  ⟨⟨entry.key, List.mem_cons_self⟩, ⟨entry.value, List.mem_cons_of_mem _ List.mem_cons_self⟩⟩

theorem map_map (g : β → γ) (f : α → β) (entry : Entry α) :
    (entry.map f).map g = entry.map fun a => g (f a) := rfl

theorem attach_map (f : α → β) (entry : Entry α) :
    (entry.attach.map fun part => f part.1) = entry.map f := rfl

end Entry

namespace Clause

def map (f : α → β) : Clause α → Clause β
  | each target iterable => each (f target) (f iterable)
  | only condition => only (f condition)

def attach : (clause : Clause α) → Clause { a // a ∈ clause.parts }
  | each target iterable =>
    each ⟨target, List.mem_cons_self⟩ ⟨iterable, List.mem_cons_of_mem _ List.mem_cons_self⟩
  | only condition => only ⟨condition, List.mem_cons_self⟩

theorem map_map (g : β → γ) (f : α → β) (clause : Clause α) :
    (clause.map f).map g = clause.map fun a => g (f a) := by
  cases clause <;> rfl

theorem attach_map (f : α → β) (clause : Clause α) :
    (clause.attach.map fun part => f part.1) = clause.map f := by
  cases clause <;> rfl

end Clause

namespace Argument

def map (f : α → β) : Argument α → Argument β
  | positional value => positional (f value)
  | keyword name nameSpan value => keyword name nameSpan (f value)
  | unpack value => unpack (f value)
  | unpackKeywords value => unpackKeywords (f value)

def attach (argument : Argument α) : Argument { a // a = argument.value } :=
  match argument with
  | positional value => positional ⟨value, rfl⟩
  | keyword name nameSpan value => keyword name nameSpan ⟨value, rfl⟩
  | unpack value => unpack ⟨value, rfl⟩
  | unpackKeywords value => unpackKeywords ⟨value, rfl⟩

theorem map_map (g : β → γ) (f : α → β) (argument : Argument α) :
    (argument.map f).map g = argument.map fun a => g (f a) := by
  cases argument <;> rfl

theorem attach_map (f : α → β) (argument : Argument α) :
    (argument.attach.map fun part => f part.1) = argument.map f := by
  cases argument <;> rfl

/-- The argument without the span of its name. -/
def bare : Argument α → Argument α
  | keyword name _ value => keyword name default value
  | argument => argument

end Argument

namespace Shape

def map (f : α → β) : Shape α → Shape β
  | literal value => literal value
  | name label => name label
  | list elements => list (elements.map f)
  | tuple elements => tuple (elements.map f)
  | dict entries => dict (entries.map (Entry.map f))
  | listComp element clauses => listComp (f element) (clauses.map (Clause.map f))
  | dictComp entry clauses => dictComp (entry.map f) (clauses.map (Clause.map f))
  | call callee arguments => call (f callee) (arguments.map (Argument.map f))
  | binary op left right => binary op (f left) (f right)
  | unary op operand => unary op (f operand)
  | member object label => member (f object) label
  | index object key => index (f object) (f key)
  | slice object lower upper step => slice (f object) (lower.map f) (upper.map f) (step.map f)
  | conditional whenTrue condition whenFalse =>
    conditional (f whenTrue) (f condition) (f whenFalse)

/-- The shape without the spans of its argument names. -/
def bare : Shape α → Shape α
  | call callee arguments => call callee (arguments.map Argument.bare)
  | shape => shape

/-- The shape with each part known to be one of its parts. -/
def attach (s : Shape α) : Shape { a // a ∈ s.parts } :=
  match s with
  | literal value => literal value
  | name label => name label
  | list elements => list (elements.attach.map fun ⟨part, hp⟩ => ⟨part, hp⟩)
  | tuple elements => tuple (elements.attach.map fun ⟨part, hp⟩ => ⟨part, hp⟩)
  | dict entries =>
    dict (entries.attach.map fun ⟨entry, he⟩ => entry.attach.map fun ⟨part, hp⟩ =>
      ⟨part, List.mem_flatMap.2 ⟨entry, he, hp⟩⟩)
  | listComp element clauses =>
    listComp ⟨element, List.mem_cons_self⟩ (clauses.attach.map fun ⟨clause, hc⟩ =>
      clause.attach.map fun ⟨part, hp⟩ =>
        ⟨part, List.mem_cons_of_mem _ (List.mem_flatMap.2 ⟨clause, hc, hp⟩)⟩)
  | dictComp entry clauses =>
    dictComp (entry.attach.map fun ⟨part, hp⟩ => ⟨part, List.mem_append_left _ hp⟩)
      (clauses.attach.map fun ⟨clause, hc⟩ => clause.attach.map fun ⟨part, hp⟩ =>
        ⟨part, List.mem_append_right _ (List.mem_flatMap.2 ⟨clause, hc, hp⟩)⟩)
  | call callee arguments =>
    call ⟨callee, List.mem_cons_self⟩ (arguments.attach.map fun ⟨argument, ha⟩ =>
      argument.attach.map fun ⟨part, hp⟩ =>
        ⟨part, List.mem_cons_of_mem _ (List.mem_map.2 ⟨argument, ha, hp.symm⟩)⟩)
  | binary op left right =>
    binary op ⟨left, List.mem_cons_self⟩ ⟨right, List.mem_cons_of_mem _ List.mem_cons_self⟩
  | unary op operand => unary op ⟨operand, List.mem_cons_self⟩
  | member object label => member ⟨object, List.mem_cons_self⟩ label
  | index object key =>
    index ⟨object, List.mem_cons_self⟩ ⟨key, List.mem_cons_of_mem _ List.mem_cons_self⟩
  | slice object lower upper step =>
    slice ⟨object, List.mem_cons_self⟩
      (lower.attach.map fun ⟨part, hp⟩ => ⟨part, by simp [parts, hp]⟩)
      (upper.attach.map fun ⟨part, hp⟩ => ⟨part, by simp [parts, hp]⟩)
      (step.attach.map fun ⟨part, hp⟩ => ⟨part, by simp [parts, hp]⟩)
  | conditional whenTrue condition whenFalse =>
    conditional ⟨whenTrue, by simp [parts]⟩ ⟨condition, by simp [parts]⟩
      ⟨whenFalse, by simp [parts]⟩

theorem attach_map (f : α → β) (s : Shape α) :
    (s.attach.map fun part => f part.1) = s.map f := by
  cases s <;> simp [attach, map, Function.comp_def, Entry.map_map, Entry.attach_map,
    Clause.map_map, Clause.attach_map, Argument.map_map, Argument.attach_map]

end Shape

namespace Expr

/-- The expression without its ids and spans. -/
def bare (e : Expr) : Expr :=
  ⟨0, default, (e.shape.attach.map fun ⟨part, h⟩ =>
    have := sizeOf_lt_of_mem_parts h
    part.bare).bare⟩
  termination_by sizeOf e

theorem bare_eq (e : Expr) : e.bare = ⟨0, default, (e.shape.map bare).bare⟩ := by
  rw [bare, ← Shape.attach_map bare]

theorem bare_congr {e e' : Expr} (h : (e'.shape.map bare).bare = (e.shape.map bare).bare) :
    e'.bare = e.bare := by
  rw [bare_eq, bare_eq, h]

end Expr

/-- The parameter without spans, and its default without ids. -/
def Parameter.bare (p : Parameter) : Parameter :=
  ⟨p.name, p.kind, p.default.map Expr.bare, Inhabited.default⟩

mutual

/-- The statement without spans, and its expressions without ids. -/
def Stmt.bare : Stmt → Stmt
  | ⟨_, form⟩ => ⟨default, form.bare⟩

def Form.bare : Form Stmt → Form Stmt
  | .expression value => .expression value.bare
  | .assign target value => .assign target.bare value.bare
  | .augment op target value => .augment op target.bare value.bare
  | .define name parameters body =>
    .define name (parameters.map Parameter.bare) (Stmt.bareAll body)
  | .return_ value => .return_ (value.map Expr.bare)
  | .branch condition body other =>
    .branch condition.bare (Stmt.bareAll body) (Stmt.bareAll other)
  | .loop target iterable body => .loop target.bare iterable.bare (Stmt.bareAll body)
  | .pass => .pass
  | .break_ => .break_
  | .continue_ => .continue_

def Stmt.bareAll : List Stmt → List Stmt
  | [] => []
  | s :: ss => s.bare :: Stmt.bareAll ss

end

theorem Stmt.bare_eq (s : Stmt) : s.bare = ⟨default, s.form.bare⟩ := by
  cases s
  rfl

theorem Stmt.bareAll_eq_map (ss : List Stmt) : Stmt.bareAll ss = ss.map Stmt.bare := by
  induction ss with
  | nil => rfl
  | cons s ss ih => rw [Stmt.bareAll, List.map_cons, ih]

end BuildTyping
