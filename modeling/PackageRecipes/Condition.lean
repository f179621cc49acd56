import PackageRecipes.Spec.Reader

/-! Conditions: when a directive applies, as the author of a recipe writes it, and the
expression that stands for it once it is anchored on its owner. An expression without a
name is about its owner, and one that names another package is about the owner's
dependency of that name. -/

namespace PackageRecipes.Spec

def anchor (spec : Spec) (owner : String) : Except Error Spec :=
  match spec.node.name with
  | none => .ok { spec with node := { spec.node with name := some owner } }
  | some name =>
    if name == owner then .ok spec
    else do
      let anchored ← (named owner).addDependency name spec.node
      spec.dependencies.entries.foldlM (fun anchored (name, node) => anchored.addDependency name node)
        anchored

/-- Reads a condition of `owner`. A text with nothing but white space is the
condition that always holds for it. -/
def anonymous (expression owner : String) : Except Error Spec := do
  let trimmed := Text.trim expression
  if trimmed.isEmpty then return named owner
  (← parse trimmed).anchor owner

end PackageRecipes.Spec

namespace PackageRecipes

inductive Condition where
  | always
  | never
  | expression (text : String)
  deriving DecidableEq

namespace Condition

/-- White space around a flag word and its case do not matter. -/
def isFlag (text word : String) : Bool :=
  Text.sameIgnoringCase (Text.trim text) word

/-- The word `false` disables a directive as the flag does. -/
def ofText (text : String) : Condition :=
  if isFlag text "false" then never else expression text

def ofFlag (enabled : Bool) : Condition :=
  if enabled then always else never

def isNever (condition : Condition) : Bool :=
  condition == never

/-- The constraint expression of a condition; `none` if it says nothing. -/
def parse : Condition → Except Error (Option Spec)
  | always | never => .ok none
  | expression text =>
    if isFlag text "" || isFlag text "true" then .ok none else (Spec.parse text).map some

end Condition

/-- The condition on `owner` that an expression, or none at all, stands for. -/
def anchorCondition (when : Option Spec) (owner : String) : Except Error Spec :=
  match when with
  | some spec => spec.anchor owner
  | none => .ok (.named owner)

end PackageRecipes
