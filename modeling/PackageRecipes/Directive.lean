import PackageRecipes.Directive.Effect

/-! Directives: the built-in ones and custom ones. A custom directive acts through a
handle that guards the fields it has not declared; its action is a program over
that handle, which may look at the descriptor, replay other directives and go
on after their failures. -/

namespace PackageRecipes

structure CustomKind where
  name : String
  fields : FieldSet

mutual

/-- A recorded declaration. Each custom action is numbered when it is recorded. -/
inductive Directive where
  | declared (declaration : Declaration)
  | custom (kind : CustomKind) (number : Nat) (action : Program)

inductive Program where
  | finish (outcome : Except Error Unit)
  | inspect (next : Descriptor → Program)
  | replay (directive : Directive) (next : Except Error Unit → Program)

end

namespace Directive

/-- Custom directives are equal when they are the same recorded action. -/
instance : BEq Directive where
  beq
    | declared left, declared right => left == right
    | custom left first _, custom right second _ => left.name == right.name && first == second
    | _, _ => false

def name : Directive → String
  | declared declaration => declaration.kind.name
  | custom kind _ _ => kind.name

def fields : Directive → FieldSet
  | declared declaration => OrderedSet.ofList declaration.kind.fields
  | custom kind _ _ => kind.fields

/-- The first field that a directive needs and the custom directive replaying it has
not declared. -/
def missingField? (kind : CustomKind) (directive : Directive) : Option Field :=
  directive.fields.toList.find? fun field => !kind.fields.contains field

end Directive

mutual

def Directive.effect (config : Config) : Directive → Effect
  | .declared declaration => declaration.effect config
  | .custom kind _ action => action.run config kind

/-- Runs a custom directive's action. A directive that needs an undeclared field is
refused before it has any effect. -/
def Program.run (config : Config) (kind : CustomKind) : Program → Effect
  | .finish outcome => fun descriptor => (outcome, descriptor)
  | .inspect next => fun descriptor => (next descriptor).run config kind descriptor
  | .replay directive next => fun descriptor =>
    match directive.missingField? kind with
    | some field =>
      let refusal := Error.directiveConfig (.fieldUndeclared kind.name field.name directive.name)
      (next (.error refusal)).run config kind descriptor
    | none =>
      let (outcome, written) := directive.effect config descriptor
      (next outcome).run config kind written

end

end PackageRecipes
