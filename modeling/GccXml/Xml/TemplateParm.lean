import Mathlib.Data.List.Basic

namespace GccXml

/-! # `Xml.TemplateParm` — the search for template parameters in a type

`xml_add_template_decl` adds an instantiation only when `xml_find_template_parm` finds no template parameter in
its arguments. The function walks types and expressions, so its argument is modelled as the tree it walks. -/

/-! ## Types and expressions -/

/-- The codes `xml_find_template_parm` answers 1 for and whose operands it never looks at, apart from
    `CAST_EXPR`. The first five are the template parameters, the others are dependent entities. -/
inductive DependentCode
  | templateTypeParm | templateTemplateParm | templateParmIndex | typenameType | boundTemplateTemplateParm
  | constDecl | varDecl | functionDecl | overload | fieldDecl | scopeRef
  deriving DecidableEq, Repr

/-- The codes answered 0 without a look at any operand, which have no operand that is a type or an expression. -/
inductive LeafCode
  | booleanType | enumeralType | integerType | langType | realType | voidType | templateDecl | integerCst
  deriving DecidableEq, Repr

inductive ClassCode
  | unionType | qualUnionType | recordType
  deriving DecidableEq, Repr

inductive UnaryCode
  | alignofExpr | sizeofExpr | addrExpr | convertExpr | nopExpr | negateExpr | bitNotExpr | truthNotExpr
  | predecrementExpr | preincrementExpr | postdecrementExpr | postincrementExpr
  deriving DecidableEq, Repr

inductive BinaryCode
  | compoundExpr | initExpr | modifyExpr | plusExpr | minusExpr | multExpr | truncDivExpr | truncModExpr
  | minExpr | maxExpr | lshiftExpr | rshiftExpr | bitIorExpr | bitXorExpr | bitAndExpr
  | truthAndifExpr | truthOrifExpr | ltExpr | leExpr | gtExpr | geExpr | eqExpr | neExpr | exactDivExpr
  deriving DecidableEq, Repr

/-- The types that forward to their `TREE_TYPE`. -/
inductive NestedCode
  | referenceType | pointerType | vectorType
  deriving DecidableEq, Repr

/-- The expressions that forward to their `TREE_TYPE`, and not to their operands. -/
inductive RefCode
  | indirectRef | componentRef
  deriving DecidableEq, Repr

mutual

/-- A type or an expression as `xml_find_template_parm` walks it; `null` is `NULL_TREE`. -/
inductive TypeTree
  | null
  | treeVec (elts : List TypeTree)
  /-- A `TREE_LIST` with the list that its `TREE_CHAIN` leads to. -/
  | treeList (purpose value : TypeTree) (chain : TypeList)
  | dependent (code : DependentCode)
  | castExpr (operands : List TypeTree)
  | staticCastExpr (type operand : TypeTree)
  /-- `FUNCTION_TYPE` or `METHOD_TYPE`: its `TREE_TYPE` and its `TYPE_ARG_TYPES` before `void_list_node`. -/
  | functionType (isMethod : Bool) (result : TypeTree) (argTypes : TypeList)
  /-- A `RECORD_TYPE` with `TYPE_PTRMEMFUNC_P`. -/
  | ptrmemfunc (fnType : TypeTree)
  /-- A class with `CLASSTYPE_TEMPLATE_INFO`. -/
  | templateClass (code : ClassCode) (tiArgs : TypeTree)
  | plainClass (code : ClassCode) (treeType : TypeTree)
  | nested (code : NestedCode) (treeType : TypeTree)
  | complexType (treeType : TypeTree)
  /-- An `ARRAY_TYPE`: its `TREE_TYPE` and the bound in its `TYPE_DOMAIN`. -/
  | arrayType (treeType bound : TypeTree)
  | offsetType (basetype treeType : TypeTree)
  | ptrmemCst (ptrmemClass ptrmemMember : TypeTree)
  | leaf (code : LeafCode)
  | ref (code : RefCode) (treeType : TypeTree) (operands : List TypeTree)
  | unary (code : UnaryCode) (operand : TypeTree)
  | binary (code : BinaryCode) (operand₀ operand₁ : TypeTree)
  | condExpr (operand₀ operand₁ operand₂ : TypeTree)
  | typeofType (expr : TypeTree)
  | callExpr (func : TypeTree) (args : TypeList)
  | templateIdExpr (template : TypeTree) (args : List TypeTree)
  /-- Any other code, with its operands: reported on `stderr` and answered 0. -/
  | other (name : String) (operands : List TypeTree)

/-- A chain of `TREE_LIST` nodes. -/
inductive TypeList
  | nil
  | cons (purpose value : TypeTree) (chain : TypeList)

end

/-! ## The search -/

mutual

/-- `xml_find_template_parm`. -/
def xmlFindTemplateParm : TypeTree → Bool
  | .null => false
  | .treeVec elts => xmlFindTemplateParmAny elts
  | .treeList purpose value _ => xmlFindTemplateParm purpose || xmlFindTemplateParm value
  | .dependent _ => true
  | .castExpr _ => true
  | .staticCastExpr _ _ => false
  | .functionType _ result argTypes => xmlFindTemplateParm result || xmlFindTemplateParmList argTypes
  | .ptrmemfunc fnType => xmlFindTemplateParm fnType
  | .templateClass _ tiArgs => xmlFindTemplateParm tiArgs
  | .plainClass _ treeType => xmlFindTemplateParm treeType
  | .nested _ treeType => xmlFindTemplateParm treeType
  | .complexType _ => false
  | .arrayType treeType _ => xmlFindTemplateParm treeType
  | .offsetType basetype treeType => xmlFindTemplateParm basetype || xmlFindTemplateParm treeType
  | .ptrmemCst ptrmemClass ptrmemMember =>
      xmlFindTemplateParm ptrmemClass || xmlFindTemplateParm ptrmemMember
  | .leaf _ => false
  | .ref _ treeType _ => xmlFindTemplateParm treeType
  | .unary _ operand => xmlFindTemplateParm operand
  | .binary _ operand₀ operand₁ => xmlFindTemplateParm operand₀ || xmlFindTemplateParm operand₁
  | .condExpr operand₀ operand₁ operand₂ =>
      xmlFindTemplateParm operand₀ || xmlFindTemplateParm operand₁ || xmlFindTemplateParm operand₂
  | .typeofType expr => xmlFindTemplateParm expr
  | .callExpr func args => xmlFindTemplateParm func || xmlFindTemplateParmList args
  | .templateIdExpr template args => xmlFindTemplateParm template || xmlFindTemplateParmAny args
  | .other _ _ => false

/-- The loops of `xml_find_template_parm` over the elements of a vector. -/
def xmlFindTemplateParmAny : List TypeTree → Bool
  | [] => false
  | t :: ts => xmlFindTemplateParm t || xmlFindTemplateParmAny ts

/-- The loops of `xml_find_template_parm` along a chain: each `TREE_LIST` is searched in turn. -/
def xmlFindTemplateParmList : TypeList → Bool
  | .nil => false
  | .cons purpose value chain =>
      (xmlFindTemplateParm purpose || xmlFindTemplateParm value) || xmlFindTemplateParmList chain

end

end GccXml
