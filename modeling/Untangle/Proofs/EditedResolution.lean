import Mathlib.Logic.Basic
import Untangle.Binding.Resolve
import Untangle.Proofs.NameEdits

/-!
# Resolving under other names

Edits of names leave everything in its place, so resolution takes the same steps about the new
names.

* `steps_mapping` — the steps of a program are those before, mapped.
-/

namespace Untangle

variable {w : Edits Unit} {f : Ident → Ident} {l : Ident → StateM Unit Ident} {grammar : Bool}

/-- The same place under other names. -/
def HoistSite.map (f : Ident → Ident) (site : HoistSite) : HoistSite :=
  { site with caught := site.caught.map f }

theorem HoistSite.map_catching (f : Ident → Ident) (site : HoistSite) (ids : List Ident) :
    (site.catching ids).map f = (site.map f).catching (ids.map f) := by
  simp only [HoistSite.map, HoistSite.catching, List.map_append]

theorem HoistSite.map_handling (f : Ident → Ident) (site : HoistSite) (ids : List Ident) :
    (site.handling ids).map f = (site.map f).handling (ids.map f) := by
  simp only [HoistSite.map, HoistSite.catching, HoistSite.handling, List.map_append]

/-- The same step about other names, which are looked up under some grammar. -/
def Step.map (f : Ident → Ident) (grammar : Bool) : Step → Step
  | .declare kind id => .declare kind (f id)
  | .refer _ id => .refer grammar (f id)
  | .hoistVar site kind id => .hoistVar (site.map f) kind (f id)
  | .hoistFunc site id => .hoistFunc (site.map f) (f id)
  | s => s

/-! ### Names of patterns -/

mutual

theorem bound_edit (hf : ∀ id, result (w.ident id) = f id) : ∀ p : Pat,
    (result (editPat w p)).bound = p.bound.map f
  | .name b => congrArg (fun id => [id]) (hf b.id)
  | .array elems _ => patsBound_edit hf elems
  | .object props _ => patPropsBound_edit hf props
  | .rest p _ => bound_edit hf p
  | .assign left _ => bound_edit hf left
  | .expr _ | .hole | .invalid => rfl
  | .field _ _ p => bound_edit hf p

theorem patsBound_edit (hf : ∀ id, result (w.ident id) = f id) : ∀ ps : List Pat,
    patsBound (result (editPats w ps)) = (patsBound ps).map f
  | [] => rfl
  | p :: ps => by
    show (result (editPat w p)).bound ++ patsBound (result (editPats w ps)) = _
    rw [bound_edit hf p, patsBound_edit hf ps, ← List.map_append]
    rfl

theorem patPropBound_edit (hf : ∀ id, result (w.ident id) = f id) : ∀ p : PatProp,
    (result (editPatProp w p)).bound = p.bound.map f
  | .keyValue _ value => bound_edit hf value
  | .assign b none => by
    show (PatProp.ofName b.id.name (result (editBinding w b)) none).bound = [f b.id]
    rw [← hf b.id]
    unfold PatProp.ofName
    split <;> rfl
  | .assign b (some e) => by
    show (PatProp.ofName b.id.name (result (editBinding w b))
      (some (result (editExpr w e)))).bound = [f b.id]
    rw [← hf b.id]
    unfold PatProp.ofName
    split <;> rfl
  | .rest p => bound_edit hf p

theorem patPropsBound_edit (hf : ∀ id, result (w.ident id) = f id) : ∀ ps : List PatProp,
    patPropsBound (result (editPatProps w ps)) = (patPropsBound ps).map f
  | [] => rfl
  | p :: ps => by
    show (result (editPatProp w p)).bound ++ patPropsBound (result (editPatProps w ps)) = _
    rw [patPropBound_edit hf p, patPropsBound_edit hf ps, ← List.map_append]
    rfl

end

theorem declaredBound_edit (hf : ∀ id, result (w.ident id) = f id) (ds : List Declarator) :
    (result (editDeclarators w ds)).flatMap Declarator.bound =
      (ds.flatMap Declarator.bound).map f := by
  induction ds with
  | nil => rfl
  | cons d ds ih =>
    obtain ⟨target, init, definite⟩ := d
    rw [List.flatMap_cons, List.map_append, ← ih]
    exact congrArg (· ++ _) (bound_edit hf target)

/-! ### Steps under other names -/

/-- Changes every name by a function. -/
abbrev Edits.mapping (f : Ident → Ident) (l : Ident → StateM Unit Ident) : Edits Unit :=
  .ofNames (fun id => pure (f id)) l

/-- The same steps about other names. -/
def Mapped (f : Ident → Ident) (grammar : Bool) (a b : List Step) : Prop :=
  b = a.map (Step.map f grammar)

abbrev Place.under (c : Place) (grammar : Bool) : Place := { c with isModule := grammar }

/-- Resolution does with edited code, at some other place, what it does with the code, about other
names. -/
abbrev Mirrors {α P : Type} (f : Ident → Ident) (l : Ident → StateM Unit Ident)
    (grammar : Bool) (resolve : P → α → List Step) (edit : Edits Unit → α → StateM Unit α) (x : α)
    (c c' : P) : Prop :=
  Mapped f grammar (resolve c x) (resolve c' (result (edit (.mapping f l) x)))

namespace Mapped

variable {a b a' b' : List Step}

theorem append (h : Mapped f grammar a b) (h' : Mapped f grammar a' b') :
    Mapped f grammar (a ++ a') (b ++ b') := by
  rw [Mapped, h, h', List.map_append]

theorem cons {s : Step} (h : Mapped f grammar a b) :
    Mapped f grammar (s :: a) (s.map f grammar :: b) :=
  congrArg (s.map f grammar :: ·) h

theorem inScope {isFunction : Bool} (h : Mapped f grammar a b) :
    Mapped f grammar (inScope isFunction a) (inScope isFunction b) := by
  rw [Mapped, h]
  simp [Untangle.inScope, Step.map]

end Mapped

/-! ### Hoisting -/

theorem hoistVar_steps (site : HoistSite) (d : VarDecl) :
    Mirrors f l grammar hoistVar editVarDecl d site (site.map f) := by
  obtain ⟨kind, ds⟩ := d
  show Mapped f grammar (hoistVar site (.mk kind ds))
    (hoistVar (site.map f) (.mk kind (result (editDeclarators (.mapping f l) ds))))
  rw [hoistVar, hoistVar, declaredBound_edit fun _ => rfl]
  show Mapped f grammar _ (if site.inBlock && kind != .var then [] else _)
  split
  · rfl
  · rw [Mapped, List.map_map, List.map_map]
    rfl

theorem hoistDecl_steps (site : HoistSite) : ∀ d : Decl,
    Mirrors f l grammar hoistDecl editDecl d site (site.map f)
  | .cls name c => by
    show (if site.inBlock then [] else [Step.declare .lexical (f name)]) = _
    unfold hoistDecl
    split <;> rfl
  | .var d => hoistVar_steps site d
  | .func .. | .iface _ | .typeAlias .. | .enum .. | .ambient _ => rfl

theorem hoistHead_steps (site : HoistSite) : ∀ head : ForHead,
    Mirrors f l grammar hoistHead editHead head site (site.map f)
  | .var (.mk .var ds) => hoistVar_steps site (.mk .var ds)
  | .var (.mk .let _) | .var (.mk .const _) | .absent | .pat _ | .expr _ => rfl

theorem early?_edit (w : Edits Unit) (s : Stmt) :
    (result (editStmtParts w s)).early? = s.early?.map fun d => result (editDecl w d) := by
  cases s with
  | decl d => cases d <;> rfl
  | «return» o | ite _ _ o | «try» _ _ o | importDecl _ _ _ o | exportNamed _ _ _ o
  | _ => rfl

theorem hoistEarly_steps (site : HoistSite) (ss : List Stmt) :
    Mapped f grammar (hoistEarly site ss)
      (hoistEarly (site.map f) (result (editStmts (.mapping f l) ss))) := by
  induction ss with
  | nil => rfl
  | cons s ss hss =>
    have hs := early?_edit (.mapping f l) s
    unfold hoistEarly at hss ⊢
    show Mapped f grammar _ (((result (editStmtParts (.mapping f l) s) :: _).filterMap _).flatMap _)
    cases h : s.early? with
    | none =>
      rw [h] at hs
      rwa [List.filterMap_cons_none hs, List.filterMap_cons_none h]
    | some d =>
      rw [h] at hs
      rw [List.filterMap_cons_some hs, List.filterMap_cons_some h, List.flatMap_cons,
        List.flatMap_cons]
      exact (hoistDecl_steps site d).append hss

theorem imports_steps : ∀ items : List ImportItem,
    Mapped f grammar (declareImports items)
      (declareImports (result (editImports (.mapping f l) items)))
  | [] => rfl
  | .named _ _ _ :: rest | .default _ :: rest | .namespace _ :: rest => .cons (imports_steps rest)

theorem hoistBlock_steps {ss : List Stmt} {site : HoistSite}
    (h : Mirrors f l grammar hoistLate editStmts ss site (site.map f)) :
    Mapped f grammar (hoistEarly site ss ++ hoistLate site ss)
      (hoistEarly (site.map f) (result (editStmts (.mapping f l) ss)) ++
        hoistLate (site.map f) (result (editStmts (.mapping f l) ss))) :=
  (hoistEarly_steps site ss).append h

mutual

theorem hoistStmt_steps : ∀ (s : Stmt) (site : HoistSite),
    Mirrors f l grammar hoistStmt editStmtParts s site (site.map f)
  | .block body, site => hoistBlock_steps (hoistLate_steps body { site with inBlock := true })
  | .with _ body, site | .while _ body, site | .doWhile body _, site | .labelled _ body, site
  | .ite _ body none, site => hoistStmt_steps body site
  | .ite _ yes (some no), site => .append (hoistStmt_steps yes site) (hoistStmt_steps no site)
  | .switch _ cases, site => hoistCases_steps cases { site with inBlock := true }
  | .try body handler fin, site => by
    have hbody := hoistBlock_steps (hoistLate_steps body { site with inBlock := true })
    rcases handler with _ | k <;> rcases fin with _ | fin
    · exact hbody
    · exact hbody.append (hoistBlock_steps (hoistLate_steps fin { site with inBlock := true }))
    · exact hbody.append (hoistCatch_steps k site)
    · exact (hbody.append (hoistCatch_steps k site)).append
        (hoistBlock_steps (hoistLate_steps fin { site with inBlock := true }))
  | .for head _ _ body, site | .forIn head _ body, site | .forOf _ head _ body, site =>
    .append (hoistHead_steps site head) (hoistStmt_steps body site)
  | .decl d, site | .exportDecl d, site => hoistDecl_steps site d
  | .importDecl _ items _ _, _ => imports_steps items
  | .exportDefaultClass none c, site => hoistClass_steps c site
  | .exportDefaultClass (some _) c, site => .cons (hoistClass_steps c site)
  | .exportDefaultFunc none _, _ | .exportDefaultFunc (some _) _, _ | .expr _, _ | .empty, _
  | .debugger, _ | .return _, _ | .break _, _ | .continue _, _
  | .throw _, _ | .exportNamed _ _ _ _, _
  | .exportAll _ _ none, _ | .exportAll _ _ (some _), _ | .exportDefaultExpr _, _
  | .exportDefaultInterface _, _ => rfl

theorem hoistLate_steps : ∀ (ss : List Stmt) (site : HoistSite),
    Mirrors f l grammar hoistLate editStmts ss site (site.map f)
  | [], _ => rfl
  | s :: ss, site => by
    refine .append ?_ (hoistLate_steps ss site)
    show Mapped f grammar _
      (if (result (editStmtParts (.mapping f l) s)).early?.isSome then [] else _)
    rw [early?_edit, Option.isSome_map]
    split
    · rfl
    · exact hoistStmt_steps s site

theorem hoistCases_steps : ∀ (cs : List Case) (site : HoistSite),
    Mirrors f l grammar hoistCases editCases cs site (site.map f)
  | [], _ => rfl
  | .mk _ body :: cs, site =>
    .append (hoistBlock_steps (hoistLate_steps body site)) (hoistCases_steps cs site)

theorem hoistCatch_steps : ∀ (c : Catch) (site : HoistSite),
    Mirrors f l grammar hoistCatch editCatch c site (site.map f)
  | .mk none body, site =>
    .cons (.append (hoistBlock_steps (hoistLate_steps body (site.handling []))) rfl)
  | .mk (some p) body, site => by
    have hbody := hoistBlock_steps (hoistLate_steps body (site.handling p.bound))
    have hbound : (result (editPat (.mapping f l) p)).bound = p.bound.map f :=
      bound_edit (fun _ => rfl) p
    rw [HoistSite.map_handling, ← hbound] at hbody
    have hcaught : Mapped f grammar (p.bound.map (.hoistVar (site.catching p.bound) site.kind))
        ((p.bound.map f).map (.hoistVar ((site.map f).catching (p.bound.map f)) site.kind)) := by
      rw [Mapped, ← HoistSite.map_catching, List.map_map, List.map_map]
      rfl
    rw [← hbound] at hcaught
    exact .cons (.append (.append hbody hcaught) rfl)

theorem hoistClass_steps : ∀ (c : Class) (site : HoistSite),
    Mirrors f l grammar hoistClass editClass c site (site.map f)
  | .mk _ _ _ _ members, site =>
    hoistMembers_steps members { site with inBlock := true }

theorem hoistMembers_steps : ∀ (ms : List ClassMember) (site : HoistSite),
    Mirrors f l grammar hoistMembers editMembers ms site (site.map f)
  | [], _ => rfl
  | .staticBlock body :: ms, site =>
    .append (hoistBlock_steps (hoistLate_steps body site)) (hoistMembers_steps ms site)
  | .ctor .. :: ms, site | .method .. :: ms, site | .field .. :: ms, site | .empty :: ms, site =>
    hoistMembers_steps ms site

end

theorem hoistList_steps (strict : Bool) (kind : DeclKind) (ss : List Stmt) :
    Mapped f grammar (hoistList strict kind ss)
      (hoistList strict kind (result (editStmts (.mapping f l) ss))) :=
  .cons (hoistBlock_steps (hoistLate_steps ss { strict, kind }))

theorem hoistItems_steps (site : HoistSite) (ss : List Stmt) :
    Mirrors f l grammar hoistItems editStmts ss site (site.map f) := by
  induction ss with
  | nil => rfl
  | cons s ss ih => exact .append (hoistStmt_steps s site) ih

theorem hoistTop_steps (isModule strict : Bool) (ss : List Stmt) :
    Mapped f grammar (hoistTop isModule strict ss)
      (hoistTop isModule strict (result (editStmts (.mapping f l) ss))) := by
  cases isModule with
  | true => exact hoistItems_steps { strict, kind := .lexical } ss
  | false => exact hoistList_steps strict .lexical ss

/-! ### Names -/

theorem resolveIdent_steps (c : Place) (binds : Bool) (id : Ident) :
    Mapped f grammar [resolveIdent c binds id] [resolveIdent (c.under grammar) binds (f id)] := by
  cases binds <;> rfl

theorem referName_steps (c : Place) (n : ModuleName) :
    Mirrors f l grammar referName editModuleName n c (c.under grammar) := by
  cases n <;> rfl

theorem exports_steps (c : Place) : ∀ items : List ExportItem,
    Mirrors f l grammar resolveExports editExports items c (c.under grammar)
  | [] => rfl
  | .named _ item none :: rest => .append (referName_steps c item) (exports_steps c rest)
  | .named _ item (some exported) :: rest =>
    .append (.append (referName_steps c item) (referName_steps c exported)) (exports_steps c rest)
  | .namespace name :: rest => .append (referName_steps c name) (exports_steps c rest)
  | .default _ :: rest => .cons (exports_steps c rest)

theorem enumNames_steps : ∀ ms : List EnumMember,
    Mapped f grammar (addEnumNames ms) (addEnumNames (result (editEnumMembers (.mapping f l) ms)))
  | [] => rfl
  | .mk (.ident _) _ :: rest => .cons (enumNames_steps rest)
  | .mk (.str _) _ :: rest => enumNames_steps rest

theorem isRest_edit (w : Edits Unit) (p : Pat) : (result (editPat w p)).isRest = p.isRest := by
  cases p <;> rfl

theorem isField_edit (w : Edits Unit) (p : Pat) : (result (editPat w p)).isField = p.isField := by
  cases p <;> rfl

theorem params_steps : ∀ ps : List Pat,
    Mapped f grammar (addParams ps) (addParams (result (editPats (.mapping f l) ps)))
  | [] => rfl
  | p :: ps => by
    refine .append ?_ (params_steps ps)
    show Mapped f grammar _ (if !(result (editPat (.mapping f l) p)).isRest &&
        !(result (editPat (.mapping f l) p)).isField then
      (result (editPat (.mapping f l) p)).bound.map (Step.declare .param) else [])
    rw [isRest_edit, isField_edit, bound_edit fun _ => rfl]
    split
    · rw [Mapped, List.map_map, List.map_map]
      rfl
    · rfl

theorem hoisted_steps {c : Place} {ss : List Stmt}
    (h : Mirrors f l grammar resolveEach editStmts ss c (c.under grammar)) :
    Mapped f grammar (afterHoisting c ss (resolveEach c ss))
      (afterHoisting c (result (editStmts (.mapping f l) ss))
        (resolveEach (c.under grammar) (result (editStmts (.mapping f l) ss)))) :=
  (hoistList_steps c.strict c.kind ss).append h

theorem asksStrict_mapping (ss : List Stmt) :
    asksStrict (result (editStmts (.mapping f l) ss)) = asksStrict ss := by
  rcases ss with _ | ⟨s, ss⟩
  · rfl
  · cases s with
    | expr e =>
      cases e with
      | lit x => cases x <;> rfl
      | _ => rfl
    | «return» o | ite _ _ o | «try» _ _ o | importDecl _ _ _ o | exportNamed _ _ _ o
    | _ => rfl

/-! ### Expressions and statements -/

mutual

theorem expr_steps : ∀ (e : Expr) (c : Place),
    Mirrors f l grammar resolveExpr editParts e c (c.under grammar)
  | .ident _, _ => rfl
  | .array elems, c | .seq elems, c | .superCall elems, c | .importCall elems, c
  | .template _ elems, c => exprs_steps elems c
  | .object props, c => .inScope (properties_steps props c)
  | .func none g, c => .inScope (func_steps g c)
  | .func (some _) g, c => .inScope (.cons (.inScope (func_steps g c)))
  | .arrow g, c => .inScope (func_steps g c)
  | .cls none k, c => .append (classBase_steps k c) (.inScope (cls_steps k c))
  | .cls (some _) k, c => .append (classBase_steps k c) (.inScope (.cons (cls_steps k c)))
  | .unary _ e, c | .update _ _ e, c | .yield _ (some e), c | .await e, c | .paren e, c
  | .spread e, c | .typed _ e _, c | .typeAssert _ e, c | .nonNull e, c => expr_steps e c
  | .binary _ left right, c => .append (expr_steps left c) (expr_steps right c)
  | .assign _ t value, c => .append (target_steps t c) (expr_steps value c)
  | .cond test yes no, c => .append (.append (expr_steps test c) (expr_steps yes c))
      (expr_steps no c)
  | .member obj prop, c | .chainMember _ obj prop, c =>
    .append (expr_steps obj c) (access_steps prop c)
  | .superMember prop, c => access_steps prop c
  | .call callee args, c | .chainCall _ callee args, c | .new callee (some args), c
  | .tagged callee _ args, c => .append (expr_steps callee c) (exprs_steps args c)
  | .new callee none, c => expr_steps callee c
  | .this, _ | .lit _, _ | .yield _ none, _ | .hole, _ | .newTarget, _ | .importMeta, _
  | .privateName _, _ | .placeholder, _ => rfl

theorem exprs_steps : ∀ (es : List Expr) (c : Place),
    Mirrors f l grammar resolveExprs editExprs es c (c.under grammar)
  | [], _ => rfl
  | e :: es, c => .append (expr_steps e c) (exprs_steps es c)

theorem property_steps : ∀ (p : Property) (c : Place),
    Mirrors f l grammar resolveProperty editProperty p c (c.under grammar)
  | .shorthand id, c => by
    show Mapped f grammar _ (resolveProperty (c.under grammar) (.ofName id.name (f id)))
    unfold Property.ofName
    split <;> rfl
  | .keyValue k value, c => .append (key_steps k c) (expr_steps value c)
  | .initialized _ value, c => .cons (expr_steps value c)
  | .getter k body, c => .append (key_steps k c) (.inScope (hoisted_steps (each_steps body c)))
  | .setter k param body, c => .append (key_steps k c) (.inScope (.append (pat_steps param c true)
      (.inScope (hoisted_steps (each_steps body c)))))
  | .method k g, c => .append (key_steps k c) (.inScope (func_steps g c))
  | .spread e, c => expr_steps e c

theorem properties_steps : ∀ (ps : List Property) (c : Place),
    Mirrors f l grammar resolveProperties editProperties ps c (c.under grammar)
  | [], _ => rfl
  | p :: ps, c => .append (property_steps p c) (properties_steps ps c)

theorem key_steps : ∀ (k : PropName) (c : Place),
    Mirrors f l grammar resolveKey editKey k c (c.under grammar)
  | .computed e, c => expr_steps e c
  | .str _, _ | .num _, _ | .name _, _ | .bigint _, _ | .privateName _, _ => rfl

theorem access_steps : ∀ (a : MemberProp) (c : Place),
    Mirrors f l grammar resolveAccess editAccess a c (c.under grammar)
  | .computed e, c => expr_steps e c
  | .name _, _ | .privateName _, _ => rfl

theorem target_steps : ∀ (t : AssignTarget) (c : Place),
    Mirrors f l grammar resolveTarget editTarget t c (c.under grammar)
  | .name _, _ => rfl
  | .member obj prop, c => .append (expr_steps obj c) (access_steps prop c)
  | .superMember prop, c => access_steps prop c
  | .paren e, c => expr_steps e c
  | .chain e, c | .typed e, c => expr_steps e c
  | .pattern p, c => pat_steps p c false

theorem pat_steps : ∀ (p : Pat) (c : Place) (binds : Bool),
    Mirrors f l grammar (resolvePat · binds) editPat p c (c.under grammar)
  | .name b, c, binds => resolveIdent_steps c binds b.id
  | .array elems _, c, binds => pats_steps elems c binds
  | .object props _, c, binds => patProps_steps props c binds
  | .rest p _, c, binds | .field _ _ p, c, binds => pat_steps p c binds
  | .assign left right, c, binds => .append (pat_steps left c binds) (expr_steps right c)
  | .expr e, c, _ => expr_steps e c
  | .hole, _, _ | .invalid, _, _ => rfl

theorem pats_steps : ∀ (ps : List Pat) (c : Place) (binds : Bool),
    Mirrors f l grammar (resolvePats · binds) editPats ps c (c.under grammar)
  | [], _, _ => rfl
  | p :: ps, c, binds => .append (pat_steps p c binds) (pats_steps ps c binds)

theorem patProp_steps : ∀ (p : PatProp) (c : Place) (binds : Bool),
    Mirrors f l grammar (resolvePatProp · binds) editPatProp p c (c.under grammar)
  | .keyValue k value, c, binds => .append (key_steps k c) (pat_steps value c binds)
  | .assign b none, c, binds => by
    show Mapped f grammar _ (resolvePatProp (c.under grammar) binds
      (.ofName b.id.name (result (editBinding (.mapping f l) b)) none))
    unfold PatProp.ofName
    split <;> exact resolveIdent_steps c binds b.id
  | .assign b (some e), c, binds => by
    have h : Mapped f grammar (resolveIdent c binds b.id :: resolveExpr c e)
        (resolveIdent (c.under grammar) binds (f b.id) ::
          resolveExpr (c.under grammar) (result (editParts (.mapping f l) e))) :=
      .append (resolveIdent_steps c binds b.id) (expr_steps e c)
    show Mapped f grammar _ (resolvePatProp (c.under grammar) binds
      (.ofName b.id.name (result (editBinding (.mapping f l) b))
        (some (result (editParts (.mapping f l) e)))))
    unfold PatProp.ofName
    split <;> exact h
  | .rest p, c, binds => pat_steps p c binds

theorem patProps_steps : ∀ (ps : List PatProp) (c : Place) (binds : Bool),
    Mirrors f l grammar (resolvePatProps · binds) editPatProps ps c (c.under grammar)
  | [], _, _ => rfl
  | p :: ps, c, binds => .append (patProp_steps p c binds) (patProps_steps ps c binds)

theorem func_steps : ∀ (g : Func) (c : Place),
    Mirrors f l grammar resolveFunc editFunc g c (c.under grammar)
  | .mk _ _ _ ps _ b, c =>
    .append (.append (params_steps ps) (pats_steps ps c true)) (body_steps b c)

theorem body_steps : ∀ (b : Body) (c : Place),
    Mirrors f l grammar resolveBody editBody b c (c.under grammar)
  | .absent, _ => rfl
  | .expr e, c => expr_steps e c
  | .block ss, c => by
    have h := hoisted_steps (each_steps ss { c with strict := c.strict || asksStrict ss })
    show Mapped f grammar _
      (resolveBody (c.under grammar) (.block (result (editStmts (.mapping f l) ss))))
    unfold resolveBody
    rwa [asksStrict_mapping]

theorem classBase_steps : ∀ (k : Class) (c : Place),
    Mirrors f l grammar resolveBase editClass k c (c.under grammar)
  | .mk _ _ (some e) _ _, c => expr_steps e c
  | .mk _ _ none _ _, _ => rfl

theorem cls_steps : ∀ (k : Class) (c : Place),
    Mirrors f l grammar resolveClass editClass k c (c.under grammar)
  | .mk _ _ (some e) _ ms, c => .append (expr_steps e { c with strict := true })
      (members_steps ms { c with strict := true })
  | .mk _ _ none _ ms, c => members_steps ms { c with strict := true }

theorem member_steps : ∀ (m : ClassMember) (c : Place),
    Mirrors f l grammar resolveMember editMember m c (c.under grammar)
  | .ctor _ _ ps b, c =>
    .inScope (.append (.append (params_steps ps) (pats_steps ps c true)) (body_steps b c))
  | .method _ _ k g, c => .append (key_steps k c) (.inScope (func_steps g c))
  | .field _ k _ none, c => key_steps k c
  | .field _ k _ (some e), c => .append (key_steps k c) (expr_steps e c)
  | .staticBlock ss, c => .inScope (hoisted_steps (each_steps ss c))
  | .empty, _ => rfl

theorem members_steps : ∀ (ms : List ClassMember) (c : Place),
    Mirrors f l grammar resolveMembers editMembers ms c (c.under grammar)
  | [], _ => rfl
  | m :: ms, c => .append (member_steps m c) (members_steps ms c)

theorem stmt_steps : ∀ (s : Stmt) (c : Place) (isLoopBody : Bool),
    Mirrors f l grammar (resolveStmt · isLoopBody) editStmtParts s c (c.under grammar)
  | .expr e, c, _ | .return (some e), c, _ | .throw e, c, _ | .exportDefaultExpr e, c, _ =>
    expr_steps e c
  | .block ss, c, true => hoisted_steps (each_steps ss c)
  | .block ss, c, false => .inScope (hoisted_steps (each_steps ss c))
  | .with e s, c, _ | .while e s, c, _ | .ite e s none, c, _ =>
    .append (expr_steps e c) (stmt_steps s c false)
  | .labelled _ s, c, _ => stmt_steps s c false
  | .ite e yes (some no), c, _ => .append (.append (expr_steps e c) (stmt_steps yes c false))
      (stmt_steps no c false)
  | .switch e cases, c, _ => .append (expr_steps e c) (.inScope (cases_steps cases c))
  | .try ss handler fin, c, _ => by
    have hss := hoisted_steps (each_steps ss c)
    rcases handler with _ | k <;> rcases fin with _ | fin
    · exact .inScope hss
    · exact .append (.inScope hss) (.inScope (hoisted_steps (each_steps fin c)))
    · exact .append (.inScope hss) (catch_steps k c)
    · exact .append (.append (.inScope hss) (catch_steps k c))
        (.inScope (hoisted_steps (each_steps fin c)))
  | .doWhile s e, c, _ => .append (stmt_steps s c false) (expr_steps e c)
  | .for init test step s, c, _ => by
    have htest := optional_steps test c
    have hstep := optional_steps step c
    have hs := stmt_steps s c true
    cases test <;> cases step <;>
      exact .inScope ((((head_steps init c).append htest).append hstep).append (.inScope hs))
  | .forIn head e s, c, _ | .forOf _ head e s, c, _ =>
    .inScope (.append (.append (head_steps head c) (expr_steps e c))
      (.inScope (stmt_steps s c true)))
  | .decl d, c, _ | .exportDecl d, c, _ => decl_steps d c
  | .importDecl _ items _ _, _, _ =>
    imports_steps items
  | .exportNamed _ items none _, c, _ =>
    exports_steps c items
  | .exportDefaultFunc none g, c, _ => .inScope (func_steps g c)
  | .exportDefaultFunc (some _) g, c, _ => .cons (.inScope (func_steps g c))
  | .exportDefaultClass none k, c, _ => cls_steps k c
  | .exportDefaultClass (some _) k, c, _ => .cons (cls_steps k c)
  | .empty, _, _ | .debugger, _, _ | .return none, _, _ | .break _, _, _ | .continue _, _, _
  | .exportNamed _ _ (some _) none, _, _ | .exportNamed _ _ (some _) (some _), _, _
  | .exportAll _ _ none, _, _ | .exportAll _ _ (some _), _, _
  | .exportDefaultInterface _, _, _ => rfl

theorem optional_steps : ∀ (e : Option Expr) (c : Place), Mapped f grammar (resolveOptional c e)
    (resolveOptional (c.under grammar) (e.map fun e => result (editParts (.mapping f l) e)))
  | none, _ => rfl
  | some e, c => expr_steps e c

theorem each_steps : ∀ (ss : List Stmt) (c : Place),
    Mirrors f l grammar resolveEach editStmts ss c (c.under grammar)
  | [], _ => rfl
  | s :: ss, c => .append (stmt_steps s c false) (each_steps ss c)

theorem catch_steps : ∀ (k : Catch) (c : Place),
    Mirrors f l grammar resolveCatch editCatch k c (c.under grammar)
  | .mk none ss, c => .inScope (hoisted_steps (each_steps ss c))
  | .mk (some p) ss, c => .inScope (.append (pat_steps p c true) (hoisted_steps (each_steps ss c)))

theorem cases_steps : ∀ (cs : List Case) (c : Place),
    Mirrors f l grammar resolveCases editCases cs c (c.under grammar)
  | [], _ => rfl
  | .mk none ss :: cs, c => .append (hoisted_steps (each_steps ss c)) (cases_steps cs c)
  | .mk (some e) ss :: cs, c => .append (.append (hoisted_steps (each_steps ss c)) (expr_steps e c))
      (cases_steps cs c)

theorem head_steps : ∀ (head : ForHead) (c : Place),
    Mirrors f l grammar resolveHead editHead head c (c.under grammar)
  | .absent, _ => rfl
  | .var d, c => varDecl_steps d c
  | .pat p, c => pat_steps p c false
  | .expr e, c => expr_steps e c

theorem varDecl_steps : ∀ (d : VarDecl) (c : Place),
    Mirrors f l grammar resolveVarDecl editVarDecl d c (c.under grammar)
  | .mk kind ds, c => declarators_steps ds { c with kind := .ofVar kind }

theorem declarators_steps : ∀ (ds : List Declarator) (c : Place),
    Mirrors f l grammar resolveDeclarators editDeclarators ds c (c.under grammar)
  | [], _ => rfl
  | .mk p none _ :: ds, c => .append (pat_steps p c true) (declarators_steps ds c)
  | .mk p (some e) _ :: ds, c => .append (.append (pat_steps p c true) (expr_steps e c))
      (declarators_steps ds c)

theorem decl_steps : ∀ (d : Decl) (c : Place),
    Mirrors f l grammar resolveDecl editDecl d c (c.under grammar)
  | .func _ g, c => .inScope (func_steps g c)
  | .cls _ k, c => .cons (.inScope (cls_steps k c))
  | .var d, c => varDecl_steps d c
  | .enum _ _ ms, c => .cons (.inScope (.append (enumNames_steps ms) (enumMembers_steps ms c)))
  | .iface _, _ | .typeAlias _ _ _, _ | .ambient _, _ => rfl

theorem enumMembers_steps : ∀ (ms : List EnumMember) (c : Place),
    Mirrors f l grammar resolveEnumMembers editEnumMembers ms c (c.under grammar)
  | [], _ => rfl
  | .mk n none :: ms, c => .append (referName_steps c n) (enumMembers_steps ms c)
  | .mk n (some e) :: ms, c => .append (.append (referName_steps c n) (expr_steps e c))
      (enumMembers_steps ms c)

end

/-- Edits of names give the same steps about the new names. -/
theorem steps_mapping (f : Ident → Ident) (l : Ident → StateM Unit Ident) (p : Program) :
    (result (editProgram (.mapping f l) p)).steps = p.steps.map (Step.map f p.isModule) := by
  show Program.steps { p with body := result (editStmts (.mapping f l) p.body) } = _
  unfold Program.steps
  dsimp only
  rw [asksStrict_mapping]
  exact (hoistTop_steps p.isModule _ p.body).append (each_steps p.body _)

end Untangle
