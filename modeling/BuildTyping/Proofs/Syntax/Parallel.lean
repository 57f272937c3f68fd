import BuildTyping.Proofs.Syntax.Alike
import Mathlib.Data.List.Forall2

/-!
# Parallel programs

Two programs are parallel when they are the same statement by statement but for their expressions
and names. Their expressions have either other names and labels in the same places, or other
operators with some operands swapped. The ids are the same in both.
-/

namespace BuildTyping

/-- The two lists have the same ids, each as often. -/
def SameIds (nodes nodes' : List Expr) : Prop := (nodes'.map Expr.id).Perm (nodes.map Expr.id)

namespace SameIds

theorem append {first first' second second' : List Expr} (h : SameIds first first')
    (h' : SameIds second second') : SameIds (first ++ second) (first' ++ second') := by
  unfold SameIds
  rw [List.map_append, List.map_append]
  exact List.Perm.append h h'

theorem flatMap {α : Type} {nodes : α → List Expr} {as as' : List α}
    (h : List.Forall₂ (fun a a' => SameIds (nodes a) (nodes a')) as as') :
    SameIds (as.flatMap nodes) (as'.flatMap nodes) := by
  induction h with
  | nil => exact .nil
  | cons first _ ih =>
    rw [List.flatMap_cons, List.flatMap_cons]
    exact first.append ih

end SameIds

/-- What holds of related elements that the first list has holds of all that are related. -/
theorem forall₂_imp_of_mem {α β : Type} {R S : α → β → Prop} {as : List α} {bs : List β}
    (h : List.Forall₂ R as bs) (hS : ∀ a ∈ as, ∀ {b}, R a b → S a b) : List.Forall₂ S as bs :=
  ((List.forall₂_and_left _ _).2 ⟨hS, h⟩).imp fun _ _ ⟨hS, hR⟩ => hS hR

/-- The argument without its label. -/
def Argument.unlabelled {α : Type} : Argument α → Argument α
  | keyword _ nameSpan value => keyword "" nameSpan value
  | argument => argument

namespace Shape

variable {α : Type}

def rename (r : String → String) : Shape α → Shape α
  | name label => name (r label)
  | shape => shape

/-- The shape without the labels of arguments and attributes. -/
def unlabelled : Shape α → Shape α
  | call callee arguments => call callee (arguments.map Argument.unlabelled)
  | member object _ => member object ""
  | shape => shape

/-- The shape with the same operator in place of any other. -/
def unsigned : Shape α → Shape α
  | binary _ left right => binary .add left right
  | unary _ operand => unary .not_ operand
  | shape => shape

theorem rename_id (shape : Shape α) : shape.rename id = shape := by cases shape <;> rfl

theorem unlabelled_unsigned (shape : Shape α) :
    shape.unlabelled.unsigned = shape.unsigned.unlabelled := by
  cases shape <;> rfl

end Shape

/-- The second expression is the first one with its names taken by `r` and with any labels. -/
inductive Expr.Renamed (r : String → String) : Expr → Expr → Prop where
  | node {id : Nat} {span span' : Span} {shape shape' : Shape Expr}
      (frame : (shape.frame.rename r).unlabelled = shape'.frame.unlabelled)
      (parts : List.Forall₂ (Expr.Renamed r) shape.parts shape'.parts) :
      Expr.Renamed r ⟨id, span, shape⟩ ⟨id, span', shape'⟩

/-- The second expression is the first one with any operators, and with the operands of some binary
operations swapped. -/
inductive Expr.Reordered : Expr → Expr → Prop where
  | node {id : Nat} {span span' : Span} {shape shape' : Shape Expr}
      (frame : shape.frame.unsigned = shape'.frame.unsigned)
      (parts : List.Forall₂ Expr.Reordered shape.parts shape'.parts) :
      Expr.Reordered ⟨id, span, shape⟩ ⟨id, span', shape'⟩
  | swapped {id : Nat} {span span' : Span} {left left' right right' : Expr} (op op' : BinaryOp)
      (first : Expr.Reordered left left') (second : Expr.Reordered right right') :
      Expr.Reordered ⟨id, span, .binary op left right⟩ ⟨id, span', .binary op' right' left'⟩

namespace Expr

variable {e e' : Expr}

theorem Renamed.sameIds {r : String → String} (h : e.Renamed r e') : SameIds e.nodes e'.nodes := by
  induction e using inductionOnParts generalizing e' with
  | step e ih =>
    cases h with
    | node frame parts =>
      rw [nodes_eq, nodes_eq]
      exact (SameIds.flatMap (forall₂_imp_of_mem parts ih)).cons _

theorem Reordered.sameIds (h : e.Reordered e') : SameIds e.nodes e'.nodes := by
  induction e using inductionOnParts generalizing e' with
  | step e ih =>
    cases h with
    | node frame parts =>
      rw [nodes_eq, nodes_eq]
      exact (SameIds.flatMap (forall₂_imp_of_mem parts ih)).cons _
    | @swapped id _ _ left left' right right' op op' first second =>
      have hleft := ih left (by simp [Shape.parts]) first
      have hright := ih right (by simp [Shape.parts]) second
      rw [nodes_eq, nodes_eq]
      refine List.Perm.cons id ?_
      simpa [Shape.parts] using (hright.append hleft).trans (List.perm_append_comm.map Expr.id)

end Expr

section

variable (E : Expr → Expr → Prop) (r : String → String)

/-- The second parameter has the name of the first one taken by `r`, and a related default. -/
structure Parameter.Parallel (p p' : Parameter) : Prop where
  name : p'.name = r p.name
  default : List.Forall₂ E p.default.toList p'.default.toList

/-- The statements are the same but for their expressions, which are related by `E`, the names of
parameters, which are taken by `r`, and the names of functions, which may be any. -/
inductive Stmt.Parallel : Stmt → Stmt → Prop where
  | expression {span span' : Span} {e e' : Expr} (value : E e e') :
      Stmt.Parallel ⟨span, .expression e⟩ ⟨span', .expression e'⟩
  | assign {span span' : Span} {t t' e e' : Expr} (target : E t t') (value : E e e') :
      Stmt.Parallel ⟨span, .assign t e⟩ ⟨span', .assign t' e'⟩
  | augment {span span' : Span} {t t' e e' : Expr} (op : BinaryOp) (target : E t t')
      (value : E e e') : Stmt.Parallel ⟨span, .augment op t e⟩ ⟨span', .augment op t' e'⟩
  | define {span span' : Span} {ps ps' : List Parameter} {ss ss' : List Stmt} (name name' : String)
      (parameters : List.Forall₂ (Parameter.Parallel E r) ps ps')
      (body : List.Forall₂ Stmt.Parallel ss ss') :
      Stmt.Parallel ⟨span, .define name ps ss⟩ ⟨span', .define name' ps' ss'⟩
  | return_ {span span' : Span} {o o' : Option Expr} (value : List.Forall₂ E o.toList o'.toList) :
      Stmt.Parallel ⟨span, .return_ o⟩ ⟨span', .return_ o'⟩
  | branch {span span' : Span} {c c' : Expr} {ss ss' os os' : List Stmt} (condition : E c c')
      (body : List.Forall₂ Stmt.Parallel ss ss') (other : List.Forall₂ Stmt.Parallel os os') :
      Stmt.Parallel ⟨span, .branch c ss os⟩ ⟨span', .branch c' ss' os'⟩
  | loop {span span' : Span} {t t' i i' : Expr} {ss ss' : List Stmt} (target : E t t')
      (iterable : E i i') (body : List.Forall₂ Stmt.Parallel ss ss') :
      Stmt.Parallel ⟨span, .loop t i ss⟩ ⟨span', .loop t' i' ss'⟩
  | pass {span span' : Span} : Stmt.Parallel ⟨span, .pass⟩ ⟨span', .pass⟩
  | break_ {span span' : Span} : Stmt.Parallel ⟨span, .break_⟩ ⟨span', .break_⟩
  | continue_ {span span' : Span} : Stmt.Parallel ⟨span, .continue_⟩ ⟨span', .continue_⟩

/-- The programs are parallel statement by statement. -/
def Program.Parallel (p p' : Program) : Prop := List.Forall₂ (Stmt.Parallel E r) p.body p'.body

end

variable {E : Expr → Expr → Prop} {r : String → String}

theorem Parameter.Parallel.defaults {ps ps' : List Parameter}
    (h : List.Forall₂ (Parallel E r) ps ps') :
    List.Forall₂ E (ps.filterMap Parameter.default) (ps'.filterMap Parameter.default) := by
  induction h with
  | nil => exact .nil
  | @cons p p' ps ps' first rest ih =>
    have hdefault := first.default
    cases hp : p.default <;> cases hp' : p'.default <;> simp_all

theorem Stmt.nodes_eq (s : Stmt) :
    s.nodes = s.form.exprs.flatMap Expr.nodes ++ s.form.bodies.flatMap Stmt.nodes := by
  rw [nodes, roots_eq, List.flatMap_append, List.flatMap_assoc]
  rfl

namespace Stmt.Parallel

variable {s s' : Stmt}

theorem exprs (h : s.Parallel E r s') : List.Forall₂ E s.form.exprs s'.form.exprs := by
  cases h with
  | define name name' parameters body => exact Parameter.Parallel.defaults parameters
  | return_ value => exact value
  | _ => simp_all [Form.exprs]

theorem bodies (h : s.Parallel E r s') :
    List.Forall₂ (Stmt.Parallel E r) s.form.bodies s'.form.bodies := by
  cases h with
  | define name name' parameters body => exact body
  | branch condition body other => exact List.rel_append body other
  | loop target iterable body => exact body
  | _ => exact .nil

theorem sameIds (hE : ∀ {e e'}, E e e' → SameIds e.nodes e'.nodes) (h : s.Parallel E r s') :
    SameIds s.nodes s'.nodes := by
  induction s using inductionOnBodies generalizing s' with
  | step s ih =>
    rw [nodes_eq, nodes_eq]
    exact (SameIds.flatMap (h.exprs.imp fun _ _ => hE)).append
      (SameIds.flatMap (forall₂_imp_of_mem h.bodies ih))

end Stmt.Parallel

theorem Program.Parallel.sameIds {p p' : Program} (h : p.Parallel E r p')
    (hE : ∀ {e e'}, E e e' → SameIds e.nodes e'.nodes) : SameIds p.nodes p'.nodes := by
  have nodes_eq (q : Program) : q.nodes = q.body.flatMap Stmt.nodes := List.flatMap_assoc
  rw [nodes_eq, nodes_eq]
  exact SameIds.flatMap (h.imp fun _ _ => Stmt.Parallel.sameIds hE)

end BuildTyping
