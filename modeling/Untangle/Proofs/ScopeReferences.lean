import Untangle.Proofs.Mentions
import Untangle.Proofs.Scoping

/-!
# Scopes and references

Every declaration and every occurrence in the scopes of a program is one of its references. So a
variable that a program declares, and that occurs besides, is referred to at least twice.

* `stmts_fits` — which holds of the scopes of any statements.
-/

namespace Untangle

open ScopeTree (block)

/-- How often a variable is among some names. -/
def tally (b : Binding) (ids : List Ident) : Nat := (ids.map Ident.binding).count b

mutual

/-- How often a variable is declared or occurs. -/
def ScopeTree.weight (b : Binding) : ScopeTree → Nat
  | .occurs _ id => tally b [id]
  | .scope declared head added body =>
    tally b declared + weightOf b head + tally b added + weightOf b body

def ScopeTree.weightOf (b : Binding) : List ScopeTree → Nat
  | [] => 0
  | t :: ts => weight b t + weightOf b ts

end

open ScopeTree (weightOf)

section Counting

variable (b : Binding)

@[simp] theorem tally_nil : tally b [] = 0 := rfl

@[simp] theorem tally_append (ids ids' : List Ident) :
    tally b (ids ++ ids') = tally b ids + tally b ids' := by
  simp [tally]

@[simp] theorem tally_cons (id : Ident) (ids : List Ident) :
    tally b (id :: ids) = [id.binding].count b + tally b ids := by
  rw [← List.singleton_append, tally_append]
  rfl

@[simp] theorem weightOf_nil : weightOf b [] = 0 := rfl

@[simp] theorem weightOf_cons (t : ScopeTree) (ts : List ScopeTree) :
    weightOf b (t :: ts) = t.weight b + weightOf b ts := rfl

@[simp] theorem weightOf_append (ts us : List ScopeTree) :
    weightOf b (ts ++ us) = weightOf b ts + weightOf b us := by
  induction ts with
  | nil => simp
  | cons t ts ih =>
    rw [List.cons_append, weightOf_cons, ih, weightOf_cons, Nat.add_assoc]

@[simp] theorem weight_occurs (isRead : Bool) (id : Ident) :
    (ScopeTree.occurs isRead id).weight b = [id.binding].count b := rfl

@[simp] theorem weight_scope (declared added : List Ident) (head body : List ScopeTree) :
    (ScopeTree.scope declared head added body).weight b =
      tally b declared + weightOf b head + tally b added + weightOf b body := rfl

@[simp] theorem weight_block (declared : List Ident) (parts : List ScopeTree) :
    (block declared parts).weight b = tally b declared + weightOf b parts := by
  simp [block]

end Counting

/-! ### Names that code mentions -/

/-- Some outlines mention what some scopes hold, with what is declared for the block around and for
the function around. -/
def Fits (direct lifted : List Ident) (ts : List ScopeTree) (os : List Outline) : Prop :=
  ∀ b, tally b direct + tally b lifted + weightOf b ts ≤ (mentionsOf os).count b

namespace Fits

variable {d d' l l' : List Ident} {ts us : List ScopeTree} {os qs : List Outline} {item : Item}

theorem nil : Fits [] [] [] os := fun _ => Nat.zero_le _

theorem none : Fits [] [] [] [] := nil

theorem declared (id : Ident) : Fits [id] [] [] [.leaf (.ident id)] := fun b => by simp

theorem occurs (isRead : Bool) (id : Ident) :
    Fits [] [] [.occurs isRead id] [.leaf (.ident id)] := fun b => by simp

theorem append (h : Fits d l ts os) (h' : Fits d' l' us qs) :
    Fits (d ++ d') (l ++ l') (ts ++ us) (os ++ qs) := by
  intro b
  have hb := h b
  have hb' := h' b
  simp only [tally_append, weightOf_append, mentionsOf_append, List.count_append]
  omega

theorem perm (h : Fits d l ts os) (hperm : os.Perm qs) : Fits d l ts qs := by
  intro b
  rw [← (mentionsOf_perm hperm).count_eq]
  exact h b

/-- Code that declares nothing around comes after. -/
theorem plus (h : Fits d l ts os) (h' : Fits [] [] us qs) : Fits d l (ts ++ us) (os ++ qs) := by
  simpa only [List.append_nil] using h.append h'

theorem extra (h : Fits d l ts os) : Fits d l ts (os ++ qs) := by
  simpa only [List.append_nil] using h.append (@nil qs)

theorem after {o : Outline} (h : Fits d l ts os) : Fits d l ts (o :: os) := (@nil [o]).append h

theorem node (h : Fits d l ts os) : Fits d l ts [.node item os] := by
  intro b
  have hb := h b
  simp only [mentionsOf_cons, Outline.mentions_node, mentionsOf_nil, List.count_append]
  omega

theorem block (h : Fits d l ts os) : Fits [] l [block d ts] os := by
  intro b
  have hb := h b
  simp only [weightOf_cons, weight_block, weightOf_nil, tally_nil]
  omega

/-- The body of a loop or handler comes after its head. -/
theorem body (h : Fits d l ts os) (h' : Fits d' l' us qs) :
    Fits d (l ++ l') (ts ++ [ScopeTree.block d' us]) (os ++ qs) := by
  simpa only [List.append_nil] using h.append h'.block

theorem scope (h : Fits d [] ts os) (h' : Fits d' [] us qs) :
    Fits [] [] [.scope d ts d' us] (os ++ qs) := by
  intro b
  have hb := h b
  have hb' := h' b
  simp only [weightOf_cons, weight_scope, weightOf_nil, tally_nil, mentionsOf_append,
    List.count_append] at hb hb' ⊢
  omega

theorem closed (h : Fits d [] ts os) : Fits [] [] [.scope [] [] d ts] os := (@nil []).scope h

theorem all (h : Fits d l ts os) : Fits (d ++ l) [] ts os := by
  intro b
  have hb := h b
  simp only [tally_append, tally_nil]
  omega

theorem lift (h : Fits d [] ts os) : Fits [] d ts os := by
  intro b
  have hb := h b
  simp only [tally_nil] at hb ⊢
  omega

end Fits

section Syntax

variable (own : String → Bool)

theorem moduleName_fits : ∀ n : ModuleName, Fits [] [] (scopesModuleName n) [outlineModuleName n]
  | .ident id => .occurs false id
  | .str _ => .nil

theorem exports_fits : ∀ items : List ExportItem,
    Fits [] [] (scopesExports items) (items.flatMap outlineExport)
  | [] => .nil
  | .named _ item _ :: rest => .append (moduleName_fits item).extra (exports_fits rest)
  | .namespace _ :: rest => (exports_fits rest).after
  | .default name :: rest => .append (.occurs false name) (exports_fits rest)

theorem imports_fits : ∀ items : List ImportItem,
    Fits (items.map ImportItem.binding) [] [] (items.map outlineImport)
  | [] => .nil
  | .named _ _ id :: rest => .append (.node (Fits.declared id).extra) (imports_fits rest)
  | .default id :: rest | .namespace id :: rest =>
    .append (.node (Fits.declared id)) (imports_fits rest)

@[simp] theorem mentionsOf_params (ps : List Pat) :
    mentionsOf (outlineParams ps) = mentionsOf (outlinePats ps) := by
  induction ps with
  | nil => rfl
  | cons p ps ih => cases p <;> simp [outlineParams, outlinePats, outlinePat, ih, Item.ident?]

section

variable (b : Binding)

mutual

theorem pat_binds : ∀ p : Pat,
    weightOf b (scopesPat own true p) + tally b p.bound = weightOf b (scopesPat own false p)
  | .name _ | .hole | .invalid | .expr _ => by simp [scopesPat, Pat.bound]
  | .array elems _ => pats_bind elems
  | .object props _ => patProps_bind props
  | .rest p _ => pat_binds p
  | .assign left right => by
    have h := pat_binds left
    simp only [scopesPat, Pat.bound, weightOf_append]
    omega
  | .field _ _ p => pat_binds p

theorem pats_bind : ∀ ps : List Pat,
    weightOf b (scopesPats own true ps) + tally b (patsBound ps) =
      weightOf b (scopesPats own false ps)
  | [] => rfl
  | p :: ps => by
    have hp := pat_binds p
    have hps := pats_bind ps
    simp only [scopesPats, patsBound, weightOf_append, tally_append]
    omega

theorem patProp_binds : ∀ p : PatProp,
    weightOf b (scopesPatProp own true p) + tally b p.bound =
      weightOf b (scopesPatProp own false p)
  | .keyValue key value => by
    have h := pat_binds value
    simp only [scopesPatProp, PatProp.bound, weightOf_append]
    omega
  | .assign _ none => by simp [scopesPatProp, PatProp.bound]
  | .assign _ (some e) => by
    simp [scopesPatProp, PatProp.bound]
    omega
  | .rest p => pat_binds p

theorem patProps_bind : ∀ ps : List PatProp,
    weightOf b (scopesPatProps own true ps) + tally b (patPropsBound ps) =
      weightOf b (scopesPatProps own false ps)
  | [] => rfl
  | p :: ps => by
    have hp := patProp_binds p
    have hps := patProps_bind ps
    simp only [scopesPatProps, patPropsBound, weightOf_append, tally_append]
    omega

end

end

variable {own}

theorem Fits.bound {p : Pat} {os : List Outline} (h : Fits [] [] (scopesPat own false p) os) :
    Fits p.bound [] (scopesPat own true p) os := by
  intro b
  have hb := h b
  have hbinds := pat_binds own b p
  simp only [tally_nil] at hb ⊢
  omega

theorem Fits.bounds {ps : List Pat} {os : List Outline}
    (h : Fits [] [] (scopesPats own false ps) os) :
    Fits (patsBound ps) [] (scopesPats own true ps) os := by
  intro b
  have hb := h b
  have hbinds := pats_bind own b ps
  simp only [tally_nil] at hb ⊢
  omega

theorem Fits.params {ps : List Pat} (h : Fits [] [] (scopesPats own false ps) (outlinePats ps)) :
    Fits (patsBound ps) [] (scopesPats own true ps) (outlineParams ps) := by
  intro b
  rw [mentionsOf_params]
  exact h.bounds b

mutual

theorem expr_fits : ∀ e : Expr, Fits [] [] (scopesExpr own e) [outlineExpr e]
  | .ident id => .node (.occurs true id)
  | .unary _ e | .update _ _ e | .await e | .paren e | .spread e | .nonNull e
  | .yield _ (some e) | .new e none => .node (expr_fits e)
  | .typed _ e _ | .typeAssert _ e => .node (expr_fits e).extra
  | .array es | .seq es | .superCall es | .importCall es | .template _ es => .node (exprs_fits es)
  | .object props => .node (properties_fits props)
  | .func none f => .node (func_fits f)
  | .func (some name) f => .node ((Fits.declared name).plus (func_fits f)).block
  | .arrow f => .node (arrow_fits f)
  | .cls none c => .node (class_fits c)
  | .cls (some name) c => .node ((Fits.declared name).plus (class_fits c)).block
  | .binary _ left right => .node ((expr_fits left).plus (expr_fits right))
  | .assign _ target value => .node ((target_fits target).plus (expr_fits value))
  | .cond test yes no => .node (((expr_fits test).plus (expr_fits yes)).plus (expr_fits no))
  | .member obj prop | .chainMember _ obj prop =>
    .node (.node ((expr_fits obj).plus (access_fits prop)))
  | .superMember prop => .node (.node (access_fits prop))
  | .call callee args | .chainCall _ callee args | .new callee (some args)
  | .tagged callee _ args => .node ((expr_fits callee).plus (exprs_fits args))
  | .yield _ none | .this | .lit _ | .hole | .newTarget | .importMeta | .privateName _
  | .placeholder => .nil

theorem exprs_fits : ∀ es : List Expr, Fits [] [] (scopesExprs own es) (outlineExprs es)
  | [] => .nil
  | e :: es => (expr_fits e).plus (exprs_fits es)

theorem property_fits : ∀ p : Property, Fits [] [] (scopesProperty own p) [outlineProperty p]
  | .shorthand id => .node (.occurs false id)
  | .keyValue key value => .node ((key_fits key).plus (expr_fits value))
  | .initialized id value => .node ((Fits.occurs false id).plus (expr_fits value))
  | .getter key body => .node ((key_fits key).plus (stmts_fits body).all.closed)
  | .setter key param body =>
    .node ((key_fits key).plus (.scope (pat_fits param).bound (stmts_fits body).all))
  | .method key f => .node ((key_fits key).plus (func_fits f))
  | .spread e => .node (expr_fits e)

theorem properties_fits : ∀ ps : List Property,
    Fits [] [] (scopesProperties own ps) (outlineProperties ps)
  | [] => .nil
  | p :: ps => (property_fits p).plus (properties_fits ps)

theorem key_fits : ∀ k : PropName, Fits [] [] (scopesKey own k) (outlineKey k)
  | .computed e => expr_fits e
  | .name _ | .str _ | .num _ | .bigint _ | .privateName _ => .nil

theorem access_fits : ∀ m : MemberProp, Fits [] [] (scopesAccess own m) (outlineAccess m)
  | .computed e => expr_fits e
  | .name _ | .privateName _ => .nil

theorem target_fits : ∀ t : AssignTarget, Fits [] [] (scopesTarget own t) (outlineTarget t)
  | .name b => .node (.extra (.occurs false b.id))
  | .member obj prop => .node ((expr_fits obj).plus (access_fits prop))
  | .superMember prop => .node (access_fits prop)
  | .paren e | .chain e | .typed e => expr_fits e
  | .pattern p => pat_fits p

theorem pat_fits : ∀ p : Pat, Fits [] [] (scopesPat own false p) [outlinePat p]
  | .name b => .node (.node (.extra (.occurs false b.id)))
  | .array elems _ => .node (pats_fits elems).extra
  | .object props _ => .node (patProps_fits props).extra
  | .rest p _ => .node (pat_fits p).extra
  | .assign left right => .node ((pat_fits left).plus (expr_fits right))
  | .expr e => .node (expr_fits e)
  | .field _ _ p => .node (pat_fits p)
  | .hole | .invalid => .nil

theorem pats_fits : ∀ ps : List Pat, Fits [] [] (scopesPats own false ps) (outlinePats ps)
  | [] => .nil
  | p :: ps => (pat_fits p).plus (pats_fits ps)

theorem patProp_fits : ∀ p : PatProp,
    Fits [] [] (scopesPatProp own false p) (outlinePatProp p)
  | .keyValue key value => (key_fits key).plus (pat_fits value)
  | .assign b none => .node (.extra (.occurs false b.id))
  | .assign b (some e) => (Fits.node (.extra (.occurs false b.id))).plus (expr_fits e)
  | .rest p => pat_fits p

theorem patProps_fits : ∀ ps : List PatProp,
    Fits [] [] (scopesPatProps own false ps) (outlinePatProps ps)
  | [] => .nil
  | p :: ps => (patProp_fits p).plus (patProps_fits ps)

theorem func_fits : ∀ f : Func, Fits [] [] (scopesFunc own f) [outlineFunction f]
  | .mk _ _ _ params _ body =>
    .node (.extra (.extra (.scope (pats_fits params).params (body_fits body))))

theorem arrow_fits : ∀ f : Func, Fits [] [] (scopesFunc own f) (outlineArrow f)
  | .mk _ _ _ params _ body => .extra (.extra (.scope (pats_fits params).bounds (body_fits body)))

theorem body_fits : ∀ body : Body,
    Fits (body.declared own) [] (scopesBody own body) (outlineBody body)
  | .absent => .nil
  | .expr e => expr_fits e
  | .block ss => (stmts_fits ss).all

theorem class_fits : ∀ c : Class, Fits [] [] (scopesClass own c) [outlineClass c]
  | .mk _ _ none _ members => .node (members_fits members).extra.extra.extra
  | .mk _ _ (some e) _ members => .node
      (((expr_fits e).plus (members_fits members)).perm List.perm_append_comm).extra.extra

theorem member_fits : ∀ m : ClassMember, Fits [] [] (scopesMember own m) (outlineMember m)
  | .ctor _ key params body => by
    rw [outlineMember, List.append_assoc]
    exact (key_fits key).plus (.scope (pats_fits params).params (body_fits body))
  | .method _ _ key f => (key_fits key).plus (func_fits f)
  | .field _ key _ none => (key_fits key).extra.extra
  | .field _ key _ (some e) => ((key_fits key).plus (expr_fits e)).extra
  | .staticBlock body => (stmts_fits body).all.closed
  | .empty => .nil

theorem members_fits : ∀ ms : List ClassMember,
    Fits [] [] (scopesMembers own ms) (outlineMembers ms)
  | [] => .nil
  | m :: ms => (member_fits m).plus (members_fits ms)

/-- A statement mentions what it declares for its list and for the function around, besides what is
in its scopes. -/
theorem stmt_fits : ∀ s : Stmt,
    Fits (s.direct own) (s.lifted own) (scopesStmt own s) [outlineStmt s]
  | .expr e | .return (some e) | .throw e | .exportDefaultExpr e => .node (expr_fits e)
  | .block body => .node (stmts_fits body).block
  | .with obj s | .while obj s | .doWhile s obj => .node ((expr_fits obj).body (stmt_fits s))
  | .labelled _ s => .node (stmt_fits s).block.after
  | .ite test yes none => by
    have h := (expr_fits test).body (stmt_fits yes)
    rw [← List.append_nil (yes.lifted own)] at h
    exact .node h
  | .ite test yes (some no) => .node (((expr_fits test).body (stmt_fits yes)).body (stmt_fits no))
  | .switch disc cases => .node ((expr_fits disc).body (cases_fits cases))
  | .try body none none => .node (((stmts_fits body).block.append .none).append .none)
  | .try body (some c) none => .node (((stmts_fits body).block.append (catch_fits c)).append .none)
  | .try body none (some f) =>
    .node (((stmts_fits body).block.append .none).append (stmts_fits f).block)
  | .try body (some c) (some f) =>
    .node (((stmts_fits body).block.append (catch_fits c)).append (stmts_fits f).block)
  | .for init none none s =>
    .node ((((head_fits init).plus .none).plus .none).body (stmt_fits s)).block
  | .for init (some test) none s =>
    .node ((((head_fits init).plus (expr_fits test)).plus .none).body (stmt_fits s)).block
  | .for init none (some step) s =>
    .node ((((head_fits init).plus .none).plus (expr_fits step)).body (stmt_fits s)).block
  | .for init (some test) (some step) s =>
    .node ((((head_fits init).plus (expr_fits test)).plus (expr_fits step)).body (stmt_fits s)).block
  | .forIn head obj s | .forOf _ head obj s =>
    .node ((((head_fits head).plus (expr_fits obj)).body (stmt_fits s)).perm
      (.of_eq (List.append_assoc _ _ _))).block
  | .decl d | .exportDecl d => .node (decl_fits d)
  | .exportNamed _ items none _ =>
    .node (exports_fits items).extra.extra
  | .exportDefaultFunc none f => .node (func_fits f)
  | .exportDefaultFunc (some name) f => .node ((Fits.declared name).plus (func_fits f))
  | .exportDefaultClass none c => .node (class_fits c)
  | .exportDefaultClass (some name) c => .node ((Fits.declared name).plus (class_fits c))
  | .importDecl _ items _ _ => .node (imports_fits items).extra
  | .return none | .empty | .debugger | .break _ | .continue _ | .exportNamed _ _ (some _) _
  | .exportAll .. | .exportDefaultInterface _ => .nil

theorem stmts_fits : ∀ ss : List Stmt,
    Fits (directOf own ss) (liftedOf own ss) (scopesOf own ss) (outlineStmts ss)
  | [] => .nil
  | s :: ss => (stmt_fits s).append (stmts_fits ss)

theorem catch_fits : ∀ c : Catch, Fits [] (c.lifted own) (scopesCatch own c) [outlineCatch c]
  | .mk none body => .node (stmts_fits body).block.block
  | .mk (some p) body => .node ((pat_fits p).bound.body (stmts_fits body)).block

theorem cases_fits : ∀ cs : List Case,
    Fits (directOfCases own cs) (liftedOfCases own cs) (scopesCases own cs) (outlineCases cs)
  | [] => .nil
  | .mk none body :: rest => (stmts_fits body).append (cases_fits rest)
  | .mk (some e) body :: rest => ((expr_fits e).append (stmts_fits body)).append (cases_fits rest)

theorem head_fits : ∀ h : ForHead, Fits h.direct h.lifted (scopesHead own h) (outlineHead h)
  | .absent => .nil
  | .var d => varDecl_fits d
  | .pat p => pat_fits p
  | .expr e => expr_fits e

theorem varDecl_fits : ∀ d : VarDecl,
    Fits d.direct d.lifted (scopesVarDecl own d) [outlineVarDecl d]
  | .mk .var decls => .node (declarators_fits decls).lift
  | .mk .let decls | .mk .const decls => .node (declarators_fits decls)

theorem declarators_fits : ∀ ds : List Declarator,
    Fits (ds.flatMap Declarator.bound) [] (scopesDeclarators own ds) (outlineDeclarators ds)
  | [] => .nil
  | .mk target none _ :: rest => .append (.node (pat_fits target).bound) (declarators_fits rest)
  | .mk target (some e) _ :: rest =>
    .append (.node ((pat_fits target).bound.plus (expr_fits e))) (declarators_fits rest)

theorem decl_fits : ∀ d : Decl,
    Fits (d.direct own) (d.lifted own) (scopesDecl own d) (outlineDecl d)
  | .func name f => by
    have h := (Fits.declared name).plus (func_fits f)
    unfold Decl.direct Decl.lifted
    split
    · exact .node h
    · exact .node h.lift
  | .cls name c => .node ((Fits.declared name).plus (class_fits c))
  | .var d => varDecl_fits d
  | .enum _ name members => (Fits.declared name).append (enumMembers_fits members).block
  | .ambient d => decl_fits d
  | .iface _ | .typeAlias .. => .nil

theorem enumMembers_fits : ∀ ms : List EnumMember,
    Fits (enumNames ms) [] (scopesEnumMembers own ms) (outlineEnumMembers ms)
  | [] => .nil
  | .mk (.ident id) none :: rest => (Fits.declared id).append (enumMembers_fits rest)
  | .mk (.ident id) (some e) :: rest =>
    ((Fits.declared id).plus (expr_fits e)).append (enumMembers_fits rest)
  | .mk (.str _) none :: rest => (enumMembers_fits rest).after
  | .mk (.str _) (some e) :: rest => .append (expr_fits e).after (enumMembers_fits rest)

end

end Syntax

/-! ### Variables that are declared and occur -/

mutual

theorem weight_eq (b : Binding) : ∀ t : ScopeTree,
    t.weight b = tally b t.declarations + tally b (t.occurrences.map Prod.snd)
  | .occurs _ id => by simp [ScopeTree.declarations, ScopeTree.occurrences]
  | .scope declared head added body => by
    have hhead := weightOf_eq b head
    have hbody := weightOf_eq b body
    simp only [weight_scope, ScopeTree.declarations, ScopeTree.occurrences, tally_append,
      List.map_append]
    omega

theorem weightOf_eq (b : Binding) : ∀ ts : List ScopeTree,
    weightOf b ts =
      tally b (ScopeTree.declarationsOf ts) + tally b ((ScopeTree.occurrencesOf ts).map Prod.snd)
  | [] => rfl
  | t :: ts => by
    have ht := weight_eq b t
    have hts := weightOf_eq b ts
    simp only [weightOf_cons, ScopeTree.declarationsOf, ScopeTree.occurrencesOf, tally_append,
      List.map_append]
    omega

end

theorem program_weight (b : Binding) (own : String → Bool) (p : Program) :
    (p.scopes own).weight b ≤ p.references.count b := by
  have h : Fits [] [] [p.scopes own] (outlineStmts p.body) := (stmts_fits p.body).all.closed
  have hb := h b
  have hreferences : p.references = mentionsOf (outlineStmts p.body) := rfl
  simpa only [tally_nil, weightOf_cons, weightOf_nil, Nat.zero_add, Nat.add_zero, hreferences]
    using hb

theorem tally_pos {id : Ident} {ids : List Ident} (h : id ∈ ids) : 1 ≤ tally id.binding ids :=
  List.count_pos_iff.2 (List.mem_map_of_mem h)

theorem two_le_references {own : String → Bool} {p : Program} {d : Ident} {o : Bool × Ident}
    (hd : d ∈ (p.scopes own).declarations) (ho : o ∈ (p.scopes own).occurrences)
    (hbinding : o.2.binding = d.binding) : 2 ≤ p.references.count d.binding := by
  have hdeclared := tally_pos hd
  have hoccurs := tally_pos (List.mem_map_of_mem (f := Prod.snd) ho)
  rw [hbinding] at hoccurs
  have hweight := program_weight d.binding own p
  rw [weight_eq] at hweight
  omega

end Untangle
