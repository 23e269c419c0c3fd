import Untangle.Proofs.Scoping

/-!
# The scopes of edited trees

An edit of one node changes the scopes in it, and what lists and blocks declare. Where it keeps some
relation between the scopes before and after, and one between the declarations, the edited tree keeps
both.

* `Edits.RelatesScopes.program` — both relations hold of programs.
-/

namespace Untangle

open ScopeTree (block)

variable {w : Edits Unit} {own : String → Bool} {D : List Ident → List Ident → Prop}
  {Rel : List ScopeTree → List ScopeTree → Prop}

def Expr.isName : Expr → Bool
  | .ident _ => true
  | _ => false

/-- A statement that stands alone, in its scope. -/
def lone (own : String → Bool) (s : Stmt) : ScopeTree := block (s.direct own) (scopesStmt own s)

/-- Edits that keep a relation between declarations and one between scopes. What is not edited is
left out. -/
structure Edits.RelatesScopes (w : Edits Unit) (own : String → Bool)
    (D : List Ident → List Ident → Prop) (Rel : List ScopeTree → List ScopeTree → Prop) :
    Prop where
  lifts : w.Lifts own D
  nil : Rel [] []
  append : ∀ {a b a' b'}, Rel a b → Rel a' b' → Rel (a ++ a') (b ++ b')
  scope : ∀ {ids ids' head head' added added' body body'}, D ids ids' → Rel head head' →
    D added added' → Rel body body' →
    Rel [.scope ids head added body] [.scope ids' head' added' body']
  /-- A name that is no expression. -/
  other : ∀ id, Rel [.occurs false id] [.occurs false id]
  name : ∀ id, Rel [.occurs true id] (scopesExpr own (result (w.expr (.ident id))))
  nameBase : ∀ id, Rel [.occurs true id] (scopesExpr own (result (w.base (.ident id))))
  expr : ∀ a e, e.isName = false → Rel a (scopesExpr own e) →
    Rel a (scopesExpr own (result (w.expr e))) := by exact fun _ _ _ h => h
  base : ∀ a e, e.isName = false → Rel a (scopesExpr own e) →
    Rel a (scopesExpr own (result (w.base e))) := by exact fun _ _ _ h => h
  arrow : ∀ a f, Rel a (scopesFunc own f) → Rel a (scopesFunc own (result (w.arrow f))) :=
    by exact fun _ _ h => h
  key : ∀ a k, Rel a (scopesKey own k) → Rel a (scopesKey own (result (w.key k))) :=
    by exact fun _ _ h => h
  access : ∀ a m, Rel a (scopesAccess own m) → Rel a (scopesAccess own (result (w.access m))) :=
    by exact fun _ _ h => h
  varDecl : ∀ a d, Rel a (scopesVarDecl own d) → Rel a (scopesVarDecl own (result (w.varDecl d))) :=
    by exact fun _ _ h => h
  varDeclDirect : ∀ d, D d.direct (result (w.varDecl d)).direct
  single : ∀ a s, Rel a [lone own s] → Rel a [lone own (result (w.single s))] :=
    by exact fun _ _ h => h
  labelled : ∀ a s, Rel a [lone own s] → Rel a [lone own (result (w.labelled s))] :=
    by exact fun _ _ h => h
  list : ∀ a ss, Rel a (scopesOf own ss) → Rel a (scopesOf own (result (w.list ss))) :=
    by exact fun _ _ h => h
  listDirect : ∀ ss, D (directOf own ss) (directOf own (result (w.list ss)))

theorem isName_edited (w : Edits Unit) (e : Expr) : (result (editParts w e)).isName = e.isName := by
  cases e <;> rfl

namespace Edits.RelatesScopes

variable (hw : w.RelatesScopes own D Rel)

include hw


/-! ### Names -/

theorem composes : Composes D := hw.lifts.composes

theorem ident : ∀ id, result (w.ident id) = id := hw.lifts.ident

theorem bound_edited (p : Pat) : (result (editPat w p)).bound = p.bound := by
  rw [bound_edit (f := id) hw.ident, List.map_id]

theorem patsBound_edited (ps : List Pat) : patsBound (result (editPats w ps)) = patsBound ps := by
  rw [patsBound_edit (f := id) hw.ident, List.map_id]

theorem varDecl_direct (d : VarDecl) : D d.direct (result (editVarDecl w d)).direct := by
  cases d with
  | mk kind ds =>
    have h := hw.varDeclDirect (.mk kind (result (editDeclarators w ds)))
    rwa [VarDecl.direct, declared_edited hw.ident] at h

theorem head_direct : ∀ h : ForHead, D h.direct (result (editHead w h)).direct
  | .absent | .pat _ | .expr _ => hw.composes.refl []
  | .var d => hw.varDecl_direct d

theorem decl_direct : ∀ d : Decl, D (d.direct own) ((result (editDecl w d)).direct own)
  | .func name _ => by
    show D _ (if own (result (w.ident name)).name then [result (w.ident name)] else [])
    rw [hw.ident]
    exact hw.composes.refl _
  | .cls name _ | .enum _ name _ =>
    hw.composes.of_eq (congrArg (fun id => [id]) (hw.ident name).symm)
  | .var d => hw.varDecl_direct d
  | .ambient d => decl_direct d
  | .iface _ | .typeAlias .. => hw.composes.refl []

theorem imports_direct : ∀ is : List ImportItem,
    (result (editImports w is)).map ImportItem.binding = is.map ImportItem.binding
  | [] => rfl
  | .named _ _ id :: rest | .default id :: rest | .namespace id :: rest =>
    congrArg₂ List.cons (hw.ident id) (imports_direct rest)

theorem stmt_direct (s : Stmt) : D (s.direct own) ((result (editStmtParts w s)).direct own) := by
  cases s with
  | decl d => exact hw.decl_direct d
  | exportDecl d => exact hw.decl_direct d
  | importDecl isType items source attrs =>
    exact hw.composes.of_eq (hw.imports_direct items).symm
  | exportDefaultFunc name f =>
    cases name with
    | none => exact hw.composes.refl []
    | some name => exact hw.composes.of_eq (congrArg (fun id => [id]) (hw.ident name).symm)
  | exportDefaultClass name c =>
    cases name with
    | none => exact hw.composes.refl []
    | some name => exact hw.composes.of_eq (congrArg (fun id => [id]) (hw.ident name).symm)
  | _ => exact hw.composes.refl []

theorem stmts_direct (ss : List Stmt) :
    D (directOf own ss) (directOf own (result (editStmts w ss))) := by
  induction ss with
  | nil => exact hw.composes.refl []
  | cons s ss ih => exact hw.composes.append (hw.stmt_direct s) ih

theorem list_direct (ss : List Stmt) :
    D (directOf own ss) (directOf own (result (editList w ss))) :=
  hw.composes.trans (hw.stmts_direct ss) (hw.listDirect _)

theorem list_declared (ss : List Stmt) :
    D (declaredIn own ss) (declaredIn own (result (editList w ss))) :=
  hw.composes.append (hw.list_direct ss) (hw.lifts.edited ss)

theorem body_declared (b : Body) : D (b.declared own) ((result (editBody w b)).declared own) := by
  cases b with
  | absent | expr => exact hw.composes.refl []
  | block ss => exact hw.list_declared ss

theorem cases_direct (cs : List Case) :
    D (directOfCases own cs) (directOfCases own (result (editCases w cs))) := by
  induction cs with
  | nil => exact hw.composes.refl []
  | cons c rest ih =>
    obtain ⟨_ | _, body⟩ := c
    all_goals exact hw.composes.append (hw.list_direct body) ih

theorem enumNames_edited : ∀ ms : List EnumMember,
    enumNames (result (editEnumMembers w ms)) = enumNames ms
  | [] => rfl
  | .mk (.ident id) _ :: rest =>
    congrArg₂ List.cons (hw.ident id) (enumNames_edited rest)
  | .mk (.str _) _ :: rest => enumNames_edited rest

/-! ### Places -/

theorem block_rel {ids ids' : List Ident}
    {parts parts' : List ScopeTree} (hids : D ids ids') (hparts : Rel parts parts') :
    Rel [block ids parts] [block ids' parts'] :=
  hw.scope hids hparts (hw.composes.refl []) hw.nil

theorem other_rel (id : Ident) : Rel [.occurs false id] [.occurs false (result (w.ident id))] := by
  rw [hw.ident]
  exact hw.other id

theorem binding_rel (binds : Bool) (id : Ident) : Rel (if binds then [] else [.occurs false id])
      (if binds then [] else [.occurs false (result (w.ident id))]) := by
  cases binds with
  | true => exact hw.nil
  | false => exact hw.other_rel id

theorem expr_of_parts {e : Expr}
    (h : e.isName = false → Rel (scopesExpr own e) (scopesExpr own (result (editParts w e)))) :
    Rel (scopesExpr own e) (scopesExpr own (result (w.expr (result (editParts w e))))) := by
  cases hname : e.isName with
  | false => exact hw.expr _ _ ((isName_edited w e).trans hname) (h hname)
  | true =>
    unfold Expr.isName at hname
    split at hname
    · rename_i id
      show Rel _ (scopesExpr own (result (w.expr (.ident (result (w.ident id))))))
      rw [hw.ident]
      exact hw.name id
    · cases hname

theorem base_of_parts {e : Expr}
    (h : e.isName = false → Rel (scopesExpr own e) (scopesExpr own (result (editParts w e)))) :
    Rel (scopesExpr own e) (scopesExpr own (result (w.base (result (editParts w e))))) := by
  cases hname : e.isName with
  | false => exact hw.base _ _ ((isName_edited w e).trans hname) (h hname)
  | true =>
    unfold Expr.isName at hname
    split at hname
    · rename_i id
      show Rel _ (scopesExpr own (result (w.base (.ident (result (w.ident id))))))
      rw [hw.ident]
      exact hw.nameBase id
    · cases hname

theorem single_rel {s : Stmt}
    (h : Rel (scopesStmt own s) (scopesStmt own (result (editStmtParts w s)))) :
    Rel [lone own s] [lone own (result (w.single (result (editStmtParts w s))))] :=
  hw.single _ _ (hw.block_rel (hw.stmt_direct s) h)

theorem labelled_rel {s : Stmt}
    (h : Rel (scopesStmt own s) (scopesStmt own (result (editStmtParts w s)))) :
    Rel [lone own s] [lone own (result (w.labelled (result (editStmtParts w s))))] :=
  hw.labelled _ _ (hw.block_rel (hw.stmt_direct s) h)

theorem blockOf_rel {ss : List Stmt}
    (h : Rel (scopesOf own ss) (scopesOf own (result (editStmts w ss)))) :
    Rel [block (directOf own ss) (scopesOf own ss)]
      [block (directOf own (result (editList w ss))) (scopesOf own (result (editList w ss)))] :=
  hw.block_rel (hw.list_direct ss) (hw.list _ _ h)

theorem exports_rel : ∀ es : List ExportItem,
    Rel (scopesExports es) (scopesExports (result (editExports w es)))
  | [] => hw.nil
  | .named _ (.ident id) _ :: rest => hw.append (hw.other_rel id) (exports_rel rest)
  | .named _ (.str _) _ :: rest => hw.append hw.nil (exports_rel rest)
  | .namespace _ :: rest => hw.append hw.nil (exports_rel rest)
  | .default id :: rest => hw.append (hw.other_rel id) (exports_rel rest)

/-! ### Expressions and statements -/

mutual

theorem parts_rel : ∀ e : Expr, e.isName = false →
    Rel (scopesExpr own e) (scopesExpr own (result (editParts w e)))
  | .ident _, h => by cases h
  | .array elems, _ | .seq elems, _ | .superCall elems, _ | .importCall elems, _
  | .template _ elems, _ => exprs_rel elems
  | .object props, _ => properties_rel props
  | .func none f, _ => func_rel f
  | .func (some id) f, _ =>
    hw.block_rel (hw.composes.of_eq (congrArg (fun id => [id]) (hw.ident id).symm)) (func_rel f)
  | .arrow f, _ => hw.arrow _ _ (func_rel f)
  | .cls none c, _ => class_rel c
  | .cls (some id) c, _ =>
    hw.block_rel (hw.composes.of_eq (congrArg (fun id => [id]) (hw.ident id).symm)) (class_rel c)
  | .unary _ e, _ | .update _ _ e, _ | .yield _ (some e), _ | .await e, _ | .paren e, _
  | .spread e, _ | .typed _ e _, _ | .typeAssert _ e, _ | .nonNull e, _ =>
    hw.expr_of_parts (parts_rel e)
  | .binary _ left right, _ =>
    hw.append (hw.expr_of_parts (parts_rel left)) (hw.expr_of_parts (parts_rel right))
  | .assign _ target value, _ => hw.append (target_rel target) (hw.expr_of_parts (parts_rel value))
  | .cond test yes no, _ =>
    hw.append
      (hw.append (hw.expr_of_parts (parts_rel test)) (hw.expr_of_parts (parts_rel yes)))
      (hw.expr_of_parts (parts_rel no))
  | .member obj prop, _ | .chainMember _ obj prop, _ =>
    hw.append (hw.base_of_parts (parts_rel obj)) (access_rel prop)
  | .superMember prop, _ => access_rel prop
  | .call callee args, _ | .chainCall _ callee args, _ | .new callee (some args), _
  | .tagged callee _ args, _ => hw.append (hw.base_of_parts (parts_rel callee)) (exprs_rel args)
  | .new callee none, _ => hw.base_of_parts (parts_rel callee)
  | .this, _ | .lit _, _ | .yield _ none, _ | .hole, _ | .newTarget, _ | .importMeta, _
  | .privateName _, _ | .placeholder, _ => hw.nil

theorem exprs_rel : ∀ es : List Expr,
    Rel (scopesExprs own es) (scopesExprs own (result (editExprs w es)))
  | [] => hw.nil
  | e :: es => hw.append (hw.expr_of_parts (parts_rel e)) (exprs_rel es)

theorem property_rel : ∀ p : Property,
    Rel (scopesProperty own p) (scopesProperty own (result (editProperty w p)))
  | .shorthand id => by
    show Rel _ (scopesProperty own (.ofName id.name (result (w.ident id))))
    rw [hw.ident, Property.ofName, if_pos rfl]
    exact hw.other id
  | .keyValue k value => hw.append (key_rel k) (hw.expr_of_parts (parts_rel value))
  | .initialized id value => hw.append (hw.other_rel id) (hw.expr_of_parts (parts_rel value))
  | .getter k body =>
    hw.append (key_rel k) (hw.scope (hw.composes.refl []) hw.nil (hw.list_declared body)
      (hw.list _ _ (stmts_rel body)))
  | .setter k param body =>
    hw.append (key_rel k) (hw.scope (hw.composes.of_eq (hw.bound_edited param).symm)
      (pat_rel param true) (hw.list_declared body) (hw.list _ _ (stmts_rel body)))
  | .method k f => hw.append (key_rel k) (func_rel f)
  | .spread e => hw.expr_of_parts (parts_rel e)

theorem properties_rel : ∀ ps : List Property,
    Rel (scopesProperties own ps) (scopesProperties own (result (editProperties w ps)))
  | [] => hw.nil
  | p :: ps => hw.append (property_rel p) (properties_rel ps)

theorem key_rel : ∀ k : PropName, Rel (scopesKey own k) (scopesKey own (result (editKey w k)))
  | .computed e => hw.key _ (.computed _) (hw.expr_of_parts (parts_rel e))
  | .str _ => hw.key _ (.str _) hw.nil
  | .num _ => hw.key _ (.num _) hw.nil
  | .name _ => hw.key _ (.name _) hw.nil
  | .bigint _ => hw.key _ (.bigint _) hw.nil
  | .privateName _ => hw.key _ (.privateName _) hw.nil

theorem access_rel : ∀ m : MemberProp,
    Rel (scopesAccess own m) (scopesAccess own (result (editAccess w m)))
  | .computed e => hw.access _ (.computed _) (hw.expr_of_parts (parts_rel e))
  | .name _ => hw.access _ (.name _) hw.nil
  | .privateName _ => hw.access _ (.privateName _) hw.nil

theorem target_rel : ∀ t : AssignTarget,
    Rel (scopesTarget own t) (scopesTarget own (result (editTarget w t)))
  | .name b => hw.other_rel b.id
  | .member obj prop => hw.append (hw.base_of_parts (parts_rel obj)) (access_rel prop)
  | .superMember prop => access_rel prop
  | .paren e => hw.expr_of_parts (parts_rel e)
  | .chain e | .typed e => hw.base_of_parts (parts_rel e)
  | .pattern p => pat_rel p false

theorem pat_rel : ∀ (p : Pat) (binds : Bool),
    Rel (scopesPat own binds p) (scopesPat own binds (result (editPat w p)))
  | .name b, binds => hw.binding_rel binds b.id
  | .array elems _, binds => pats_rel elems binds
  | .object props _, binds => patProps_rel props binds
  | .rest p _, binds | .field _ _ p, binds => pat_rel p binds
  | .assign left right, binds => hw.append (pat_rel left binds) (hw.expr_of_parts (parts_rel right))
  | .expr e, _ => hw.expr_of_parts (parts_rel e)
  | .hole, _ | .invalid, _ => hw.nil

theorem pats_rel : ∀ (ps : List Pat) (binds : Bool),
    Rel (scopesPats own binds ps) (scopesPats own binds (result (editPats w ps)))
  | [], _ => hw.nil
  | p :: ps, binds => hw.append (pat_rel p binds) (pats_rel ps binds)

theorem patProp_rel : ∀ (p : PatProp) (binds : Bool),
    Rel (scopesPatProp own binds p) (scopesPatProp own binds (result (editPatProp w p)))
  | .keyValue k value, binds => hw.append (key_rel k) (pat_rel value binds)
  | .assign b none, binds => by
    have hb : (result (editBinding w b)).id = b.id := hw.ident b.id
    show Rel _ (scopesPatProp own binds (PatProp.ofName b.id.name (result (editBinding w b)) none))
    rw [PatProp.ofName, if_pos (congrArg Ident.name hb)]
    exact hw.binding_rel binds b.id
  | .assign b (some e), binds => by
    have hb : (result (editBinding w b)).id = b.id := hw.ident b.id
    show Rel _ (scopesPatProp own binds (PatProp.ofName b.id.name (result (editBinding w b))
      (some (result (w.expr (result (editParts w e)))))))
    rw [PatProp.ofName, if_pos (congrArg Ident.name hb)]
    exact hw.append (hw.binding_rel binds b.id) (hw.expr_of_parts (parts_rel e))
  | .rest p, binds => pat_rel p binds

theorem patProps_rel : ∀ (ps : List PatProp) (binds : Bool),
    Rel (scopesPatProps own binds ps) (scopesPatProps own binds (result (editPatProps w ps)))
  | [], _ => hw.nil
  | p :: ps, binds => hw.append (patProp_rel p binds) (patProps_rel ps binds)

theorem func_rel : ∀ f : Func, Rel (scopesFunc own f) (scopesFunc own (result (editFunc w f)))
  | .mk _ _ _ params _ body =>
    hw.scope (hw.composes.of_eq (hw.patsBound_edited params).symm) (pats_rel params true)
      (hw.body_declared body) (body_rel body)

theorem body_rel : ∀ b : Body, Rel (scopesBody own b) (scopesBody own (result (editBody w b)))
  | .absent => hw.nil
  | .expr e => hw.expr_of_parts (parts_rel e)
  | .block ss => hw.list _ _ (stmts_rel ss)

theorem class_rel : ∀ c : Class, Rel (scopesClass own c) (scopesClass own (result (editClass w c)))
  | .mk _ _ none _ members => members_rel members
  | .mk _ _ (some e) _ members => hw.append (hw.expr_of_parts (parts_rel e)) (members_rel members)

theorem member_rel : ∀ m : ClassMember,
    Rel (scopesMember own m) (scopesMember own (result (editMember w m)))
  | .ctor _ k params body =>
    hw.append (key_rel k) (hw.scope (hw.composes.of_eq (hw.patsBound_edited params).symm)
      (pats_rel params true) (hw.body_declared body) (body_rel body))
  | .method _ _ k f => hw.append (key_rel k) (func_rel f)
  | .field _ k _ none => key_rel k
  | .field _ k _ (some e) => hw.append (key_rel k) (hw.expr_of_parts (parts_rel e))
  | .staticBlock body =>
    hw.scope (hw.composes.refl []) hw.nil (hw.list_declared body) (hw.list _ _ (stmts_rel body))
  | .empty => hw.nil

theorem members_rel : ∀ ms : List ClassMember,
    Rel (scopesMembers own ms) (scopesMembers own (result (editMembers w ms)))
  | [] => hw.nil
  | m :: ms => hw.append (member_rel m) (members_rel ms)

theorem stmt_rel : ∀ s : Stmt, Rel (scopesStmt own s) (scopesStmt own (result (editStmtParts w s)))
  | .expr e | .return (some e) | .throw e | .exportDefaultExpr e => hw.expr_of_parts (parts_rel e)
  | .block ss => hw.blockOf_rel (stmts_rel ss)
  | .with e s | .while e s | .doWhile s e | .ite e s none =>
    hw.append (hw.expr_of_parts (parts_rel e)) (hw.single_rel (stmt_rel s))
  | .labelled _ s => hw.labelled_rel (stmt_rel s)
  | .ite e yes (some no) =>
    hw.append (hw.append (hw.expr_of_parts (parts_rel e)) (hw.single_rel (stmt_rel yes)))
      (hw.single_rel (stmt_rel no))
  | .switch e cases =>
    hw.append (hw.expr_of_parts (parts_rel e))
      (hw.block_rel (hw.cases_direct cases) (cases_rel cases))
  | .try ss none none => hw.append (hw.append (hw.blockOf_rel (stmts_rel ss)) hw.nil) hw.nil
  | .try ss (some c) none =>
    hw.append (hw.append (hw.blockOf_rel (stmts_rel ss)) (catch_rel c)) hw.nil
  | .try ss none (some f) =>
    hw.append (hw.append (hw.blockOf_rel (stmts_rel ss)) hw.nil)
      (hw.blockOf_rel (stmts_rel f))
  | .try ss (some c) (some f) =>
    hw.append (hw.append (hw.blockOf_rel (stmts_rel ss)) (catch_rel c))
      (hw.blockOf_rel (stmts_rel f))
  | .for init test step s => by
    have htest := optional_rel test
    have hstep := optional_rel step
    have hs := hw.single_rel (stmt_rel s)
    cases test <;> cases step <;> exact hw.block_rel (hw.head_direct init)
      (hw.append (hw.append (hw.append (head_rel init) htest) hstep) hs)
  | .forIn head e s | .forOf _ head e s =>
    hw.block_rel (hw.head_direct head) (hw.append (hw.append (head_rel head)
      (hw.expr_of_parts (parts_rel e))) (hw.single_rel (stmt_rel s)))
  | .decl d | .exportDecl d => decl_rel d
  | .exportNamed _ items none _ => hw.exports_rel items
  | .exportDefaultFunc _ f => func_rel f
  | .exportDefaultClass _ c => class_rel c
  | .return none | .empty | .debugger | .break _ | .continue _ | .importDecl _ _ _ none
  | .importDecl _ _ _ (some _) | .exportNamed _ _ (some _) none
  | .exportNamed _ _ (some _) (some _) | .exportAll _ _ none | .exportAll _ _ (some _)
  | .exportDefaultInterface _ => hw.nil

theorem optional_rel : ∀ e : Option Expr, Rel (e.elim [] (scopesExpr own))
    ((e.map fun e => result (editExpr w e)).elim [] (scopesExpr own))
  | none => hw.nil
  | some e => hw.expr_of_parts (parts_rel e)

theorem stmts_rel : ∀ ss : List Stmt, Rel (scopesOf own ss) (scopesOf own (result (editStmts w ss)))
  | [] => hw.nil
  | s :: ss => hw.append (stmt_rel s) (stmts_rel ss)

theorem catch_rel : ∀ c : Catch, Rel (scopesCatch own c) (scopesCatch own (result (editCatch w c)))
  | .mk none body => hw.block_rel (hw.composes.refl []) (hw.blockOf_rel (stmts_rel body))
  | .mk (some p) body =>
    hw.block_rel (hw.composes.of_eq (hw.bound_edited p).symm)
      (hw.append (pat_rel p true) (hw.blockOf_rel (stmts_rel body)))

theorem cases_rel : ∀ cs : List Case,
    Rel (scopesCases own cs) (scopesCases own (result (editCases w cs)))
  | [] => hw.nil
  | .mk none body :: rest => hw.append (hw.list _ _ (stmts_rel body)) (cases_rel rest)
  | .mk (some e) body :: rest =>
    hw.append (hw.append (hw.expr_of_parts (parts_rel e)) (hw.list _ _ (stmts_rel body)))
      (cases_rel rest)

theorem head_rel : ∀ h : ForHead, Rel (scopesHead own h) (scopesHead own (result (editHead w h)))
  | .absent => hw.nil
  | .var d => varDecl_rel d
  | .pat p => pat_rel p false
  | .expr e => hw.expr_of_parts (parts_rel e)

theorem varDecl_rel : ∀ d : VarDecl,
    Rel (scopesVarDecl own d) (scopesVarDecl own (result (editVarDecl w d)))
  | .mk _ ds => hw.varDecl _ (.mk _ _) (declarators_rel ds)

theorem declarators_rel : ∀ ds : List Declarator,
    Rel (scopesDeclarators own ds) (scopesDeclarators own (result (editDeclarators w ds)))
  | [] => hw.nil
  | .mk target none _ :: rest => hw.append (pat_rel target true) (declarators_rel rest)
  | .mk target (some e) _ :: rest =>
    hw.append (hw.append (pat_rel target true) (hw.expr_of_parts (parts_rel e)))
      (declarators_rel rest)

theorem decl_rel : ∀ d : Decl, Rel (scopesDecl own d) (scopesDecl own (result (editDecl w d)))
  | .func _ f => func_rel f
  | .cls _ c => class_rel c
  | .var d => varDecl_rel d
  | .enum _ _ members =>
    hw.block_rel (hw.composes.of_eq (hw.enumNames_edited members).symm)
      (enumMembers_rel members)
  | .ambient d => decl_rel d
  | .iface _ | .typeAlias .. => hw.nil

theorem enumMembers_rel : ∀ ms : List EnumMember,
    Rel (scopesEnumMembers own ms) (scopesEnumMembers own (result (editEnumMembers w ms)))
  | [] => hw.nil
  | .mk _ none :: rest => enumMembers_rel rest
  | .mk _ (some e) :: rest => hw.append (hw.expr_of_parts (parts_rel e)) (enumMembers_rel rest)

end

theorem expr_rel (e : Expr) : Rel (scopesExpr own e) (scopesExpr own (result (editExpr w e))) :=
  hw.expr_of_parts (hw.parts_rel e)

theorem program (p : Program) : Rel [p.scopes own] [(result (editProgram w p)).scopes own] :=
  hw.scope (hw.composes.refl []) hw.nil (hw.list_declared p.body)
    (hw.list _ _ (hw.stmts_rel p.body))

end Edits.RelatesScopes

end Untangle
