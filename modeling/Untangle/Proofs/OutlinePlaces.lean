import Untangle.Tree.Outline

/-!
# Places in outlines

An outline says what stands where in a tree, and a way down through it is told by the items it
passes.

* `Program.exists_reaches` — a way leads to every item.
-/

namespace Untangle

open Outline (leaf)

/-! ### Outlines of trees -/

/-- Outlines that are made of trees. -/
inductive Outline.Made : Outline → Prop
  | ident (id : Ident) : Made (leaf (.ident id))
  | str (s : StrLit) : Made (leaf (.str s))
  | num (n : NumLit) : Made (leaf (.num n))
  | binding (b : BindingName) : Made (outlineBinding b)
  | importItem (i : ImportItem) : Made (outlineImport i)
  | expr (e : Expr) : Made (outlineExpr e)
  | access (obj : Expr) (prop : MemberProp) :
    Made (.node (.access obj prop) (outlineExpr obj :: outlineAccess prop))
  | superAccess (prop : MemberProp) : Made (.node (.superAccess prop) (outlineAccess prop))
  | property (p : Property) : Made (outlineProperty p)
  | pat (p : Pat) : Made (outlinePat p)
  | param (p : Pat) : Made (.node (.param p) [outlinePat p])
  | function (f : Func) : Made (outlineFunction f)
  | cls (c : Class) : Made (outlineClass c)
  | stmt (s : Stmt) : Made (outlineStmt s)
  | caught (c : Catch) : Made (outlineCatch c)
  | varDecl (d : VarDecl) : Made (outlineVarDecl d)
  | declarator (d : Declarator) : Made (outlineDeclarator d)
  | funcDecl (name : Ident) (f : Func) :
    Made (.node (.funcDecl name f) [leaf (.ident name), outlineFunction f])
  | classDecl (name : Ident) (c : Class) :
    Made (.node (.classDecl name c) [leaf (.ident name), outlineClass c])

attribute [simp] Outline.Made.ident Outline.Made.str Outline.Made.num Outline.Made.binding
  Outline.Made.importItem Outline.Made.expr Outline.Made.access Outline.Made.superAccess
  Outline.Made.property Outline.Made.pat Outline.Made.param Outline.Made.function Outline.Made.cls
  Outline.Made.stmt Outline.Made.caught Outline.Made.varDecl Outline.Made.declarator
  Outline.Made.funcDecl Outline.Made.classDecl

def AllMade (os : List Outline) : Prop := ∀ o ∈ os, o.Made

@[simp] theorem allMade_nil : AllMade [] := fun _ h => absurd h List.not_mem_nil

@[simp] theorem allMade_cons {o : Outline} {os : List Outline} :
    AllMade (o :: os) ↔ o.Made ∧ AllMade os := List.forall_mem_cons

@[simp] theorem allMade_append {os qs : List Outline} :
    AllMade (os ++ qs) ↔ AllMade os ∧ AllMade qs := List.forall_mem_append

def Outline.item : Outline → Item
  | .node i _ => i

@[simp] theorem item_node (i : Item) (parts : List Outline) : (Outline.node i parts).item = i := rfl

@[simp] theorem item_leaf (i : Item) : (leaf i).item = i := rfl

@[simp] theorem item_binding (b : BindingName) : (outlineBinding b).item = .binding b := rfl

@[simp] theorem item_expr (e : Expr) : (outlineExpr e).item = .expr e := by
  cases e <;> rfl

@[simp] theorem item_pat (p : Pat) : (outlinePat p).item = .pat p := by
  cases p <;> rfl

@[simp] theorem item_property (p : Property) : (outlineProperty p).item = .property p := by
  cases p <;> rfl

@[simp] theorem item_function (f : Func) : (outlineFunction f).item = .func f := by
  cases f
  rfl

@[simp] theorem item_class (c : Class) : (outlineClass c).item = .cls c := by
  cases c
  rfl

@[simp] theorem item_catch (c : Catch) : (outlineCatch c).item = .caught c := by
  cases c
  rfl

@[simp] theorem item_varDecl (d : VarDecl) : (outlineVarDecl d).item = .varDecl d := by
  cases d
  rfl

/-- Whether no variable is declared right at a node. -/
def Item.isPlain : Item → Bool
  | .stmt _ | .varDecl _ | .funcDecl .. | .caught _ => false
  | _ => true

@[simp] theorem Item.isPlain_of_ne {i : Item} (hstmt : ∀ s, i ≠ .stmt s)
    (hvar : ∀ d, i ≠ .varDecl d) (hfunc : ∀ name f, i ≠ .funcDecl name f)
    (hcatch : ∀ c, i ≠ .caught c) : i.isPlain = true := by
  unfold Item.isPlain
  split <;> simp_all

/-- Outlines of trees with no declaration at the root. -/
def AllPlain (os : List Outline) : Prop := ∀ o ∈ os, o.Made ∧ o.item.isPlain

@[simp] theorem allPlain_nil : AllPlain [] := fun _ h => absurd h List.not_mem_nil

@[simp] theorem allPlain_cons {o : Outline} {os : List Outline} :
    AllPlain (o :: os) ↔ (o.Made ∧ o.item.isPlain) ∧ AllPlain os := List.forall_mem_cons

@[simp] theorem allPlain_append {os qs : List Outline} :
    AllPlain (os ++ qs) ↔ AllPlain os ∧ AllPlain qs := List.forall_mem_append

@[simp] theorem AllPlain.made {os : List Outline} (h : AllPlain os) : AllMade os :=
  fun o ho => (h o ho).1

theorem allPlain_flatMap {α : Type} {f : α → List Outline} (h : ∀ a, AllPlain (f a))
    (as : List α) : AllPlain (as.flatMap f) := by
  intro o ho
  obtain ⟨a, -, ho⟩ := List.mem_flatMap.1 ho
  exact h a o ho

theorem allPlain_map {α : Type} {f : α → Outline} (h : ∀ a, (f a).Made ∧ (f a).item.isPlain)
    (as : List α) : AllPlain (as.map f) := by
  intro o ho
  obtain ⟨a, -, rfl⟩ := List.mem_map.1 ho
  exact h a

/-! #### Names, literals and types -/

/-- A name or a literal, which has no parts. -/
inductive Outline.IsLeaf : Outline → Prop
  | ident (id : Ident) : IsLeaf (leaf (.ident id))
  | str (s : StrLit) : IsLeaf (leaf (.str s))
  | num (n : NumLit) : IsLeaf (leaf (.num n))

theorem allPlain_leaves {os : List Outline} (h : ∀ o ∈ os, o.IsLeaf) : AllPlain os := by
  intro o ho
  cases h o ho <;> simp

theorem lit_leaves (l : Lit) : ∀ o ∈ outlineLit l, o.IsLeaf := by
  cases l with
  | str s => simpa [outlineLit] using .str s
  | num n => simpa [outlineLit] using .num n
  | _ => simp [outlineLit]

theorem idents_leaves (ids : List Ident) : ∀ o ∈ outlineIdents ids, o.IsLeaf := by
  intro o ho
  obtain ⟨id, -, rfl⟩ := List.mem_map.1 ho
  exact .ident id

mutual

theorem type_leaves : ∀ t : TypeExpr, ∀ o ∈ outlineType t, o.IsLeaf
  | .keyword _ => by simp [outlineType]
  | .ref path args => List.forall_mem_append.2 ⟨idents_leaves path, types_leaves args⟩
  | .union parts | .intersection parts | .tuple parts => types_leaves parts
  | .array t | .paren t => type_leaves t
  | .lit l => lit_leaves l
  | .typeQuery path => idents_leaves path

theorem types_leaves : ∀ ts : List TypeExpr, ∀ o ∈ outlineTypes ts, o.IsLeaf
  | [] => by simp [outlineTypes]
  | t :: ts => List.forall_mem_append.2 ⟨type_leaves t, types_leaves ts⟩

end

theorem ann_leaves : ∀ t : Option TypeExpr, ∀ o ∈ outlineAnn t, o.IsLeaf
  | none => by simp [outlineAnn]
  | some t => type_leaves t

@[simp] theorem lit_plain (l : Lit) : AllPlain (outlineLit l) := allPlain_leaves (lit_leaves l)

@[simp] theorem type_plain (t : TypeExpr) : AllPlain (outlineType t) :=
  allPlain_leaves (type_leaves t)

@[simp] theorem types_plain (ts : List TypeExpr) : AllPlain (outlineTypes ts) :=
  allPlain_leaves (types_leaves ts)

@[simp] theorem ann_plain (t : Option TypeExpr) : AllPlain (outlineAnn t) :=
  allPlain_leaves (ann_leaves t)

@[simp] theorem typeParams_plain (ts : List TypeParam) : AllPlain (outlineTypeParams ts) :=
  allPlain_flatMap (fun t => by simp) ts

@[simp] theorem interface_plain (i : Interface) : AllPlain (outlineInterface i) := by
  have hmembers : AllPlain (i.members.flatMap outlineSignature) := by
    refine allPlain_flatMap (fun s => ?_) _
    cases s with
    | property => simp [outlineSignature]
    | method _ _ params _ => simp [outlineSignature, allPlain_map (fun b => ⟨.binding b, rfl⟩) params]
  simp [outlineInterface, hmembers]

@[simp] theorem moduleName_made (n : ModuleName) : (outlineModuleName n).Made := by
  cases n <;> simp [outlineModuleName]

@[simp] theorem item_moduleName (n : ModuleName) : (outlineModuleName n).item.isPlain = true := by
  cases n <;> rfl

@[simp] theorem moduleName?_plain (n : Option ModuleName) : AllPlain (outlineModuleName? n) := by
  cases n <;> simp [outlineModuleName?]

@[simp] theorem ident?_plain (id : Option Ident) : AllPlain (outlineIdent? id) := by
  cases id <;> simp [outlineIdent?]

@[simp] theorem str?_plain (s : Option StrLit) : AllPlain (outlineStr? s) := by
  cases s <;> simp [outlineStr?]

@[simp] theorem imports_plain (is : List ImportItem) : AllPlain (is.map outlineImport) :=
  allPlain_map (fun i => ⟨.importItem i, by cases i <;> rfl⟩) is

@[simp] theorem exports_plain (es : List ExportItem) : AllPlain (es.flatMap outlineExport) :=
  allPlain_flatMap (fun e => by cases e <;> simp [outlineExport]) es

/-! #### Lists of parts -/

@[simp] theorem exprs_plain (es : List Expr) : AllPlain (outlineExprs es) := by
  induction es with
  | nil => simp [outlineExprs]
  | cons e es ih => simp [outlineExprs, ih]

@[simp] theorem expr?_plain (e : Option Expr) : AllPlain (outlineExpr? e) := by
  cases e <;> simp

@[simp] theorem exprs?_plain (es : Option (List Expr)) : AllPlain (outlineExprs? es) := by
  cases es <;> simp

@[simp] theorem properties_plain (ps : List Property) : AllPlain (outlineProperties ps) := by
  induction ps with
  | nil => simp [outlineProperties]
  | cons p ps ih => simp [outlineProperties, ih]

@[simp] theorem properties?_plain (ps : Option (List Property)) :
    AllPlain (outlineProperties? ps) := by
  cases ps <;> simp

@[simp] theorem key_plain (k : PropName) : AllPlain (outlineKey k) := by
  cases k <;> simp [outlineKey]

@[simp] theorem access_plain (a : MemberProp) : AllPlain (outlineAccess a) := by
  cases a <;> simp [outlineAccess]

@[simp] theorem target_plain (t : AssignTarget) : AllPlain (outlineTarget t) := by
  cases t <;> simp [outlineTarget]

@[simp] theorem pats_plain (ps : List Pat) : AllPlain (outlinePats ps) := by
  induction ps with
  | nil => simp [outlinePats]
  | cons p ps ih => simp [outlinePats, ih]

@[simp] theorem patProps_plain (ps : List PatProp) : AllPlain (outlinePatProps ps) := by
  induction ps with
  | nil => simp [outlinePatProps]
  | cons p ps ih => cases p <;> simp [outlinePatProps, outlinePatProp, ih]

@[simp] theorem pat?_plain (p : Option Pat) : AllPlain (outlinePat? p) := by
  cases p <;> simp

@[simp] theorem params_made (ps : List Pat) : AllMade (outlineParams ps) := by
  induction ps with
  | nil => simp [outlineParams]
  | cons p ps ih =>
    cases p with
    | field access isReadonly p =>
      have hfield : (outlinePat (.field access isReadonly p)).Made := .pat _
      exact allMade_cons.2 ⟨hfield, ih⟩
    | _ => simp [outlineParams, ih]

@[simp] theorem stmts_made (ss : List Stmt) : AllMade (outlineStmts ss) := by
  induction ss with
  | nil => simp [outlineStmts]
  | cons s ss ih => simp [outlineStmts, ih]

@[simp] theorem stmt?_made (s : Option Stmt) : AllMade (outlineStmt? s) := by
  cases s <;> simp

@[simp] theorem stmts?_made (ss : Option (List Stmt)) : AllMade (outlineStmts? ss) := by
  cases ss <;> simp

@[simp] theorem catch?_made (c : Option Catch) : AllMade (outlineCatch? c) := by
  cases c <;> simp

@[simp] theorem body_made (b : Body) : AllMade (outlineBody b) := by
  cases b <;> simp [outlineBody]

@[simp] theorem arrow_made (f : Func) : AllMade (outlineArrow f) := by
  obtain ⟨isAsync, isGenerator, typeParams, params, ret, body⟩ := f
  simp [outlineArrow]

@[simp] theorem members_made (ms : List ClassMember) : AllMade (outlineMembers ms) := by
  induction ms with
  | nil => simp [outlineMembers]
  | cons m ms ih => cases m <;> simp [outlineMembers, outlineMember, ih]

@[simp] theorem cases_made (cs : List Case) : AllMade (outlineCases cs) := by
  induction cs with
  | nil => simp [outlineCases]
  | cons c cs ih =>
    obtain ⟨test, body⟩ := c
    simp [outlineCases, outlineCase, ih]

@[simp] theorem head_made (h : ForHead) : AllMade (outlineHead h) := by
  cases h <;> simp [outlineHead]

@[simp] theorem declarators_made (ds : List Declarator) : AllMade (outlineDeclarators ds) := by
  induction ds with
  | nil => simp [outlineDeclarators]
  | cons d ds ih => simp [outlineDeclarators, ih]

@[simp] theorem enumMembers_plain (ms : List EnumMember) : AllPlain (outlineEnumMembers ms) := by
  induction ms with
  | nil => simp [outlineEnumMembers]
  | cons m ms ih =>
    obtain ⟨name, init⟩ := m
    simp [outlineEnumMembers, outlineEnumMember, ih]

theorem decl_made (d : Decl) : AllMade (outlineDecl d) := by
  cases d with
  | ambient d => simpa [outlineDecl] using decl_made d
  | _ => simp [outlineDecl]

attribute [simp] decl_made

/-! #### Nodes -/

theorem outlineExpr_eq (e : Expr) :
    ∃ parts, outlineExpr e = .node (.expr e) parts ∧ AllMade parts := by
  cases e <;> exact ⟨_, rfl, by simp⟩

theorem outlineProperty_eq (p : Property) :
    ∃ parts, outlineProperty p = .node (.property p) parts ∧ AllMade parts := by
  cases p <;> exact ⟨_, rfl, by simp⟩

theorem outlinePat_eq (p : Pat) : ∃ parts, outlinePat p = .node (.pat p) parts ∧ AllMade parts := by
  cases p <;> exact ⟨_, rfl, by simp⟩

theorem outlineStmt_eq (s : Stmt) :
    ∃ parts, outlineStmt s = .node (.stmt s) parts ∧ AllMade parts := by
  cases s <;> exact ⟨_, rfl, by simp⟩

/-- What stands at a node says what its parts are; told here for the nodes with parts of different
kinds. -/
def Item.Fits : Item → List Outline → Prop
  | .ident _, parts => parts = []
  | .binding b, parts => parts = leaf (.ident b.id) :: outlineAnn b.ann
  | .expr e, parts => outlineExpr e = .node (.expr e) parts
  | .access obj prop, parts => parts = outlineExpr obj :: outlineAccess prop
  | .declarator (.mk target init _), parts =>
    parts = outlinePat target :: (init.map outlineExpr).toList
  | _, _ => True

/-- The parts of an outline that was made of a tree were made of trees, and are those that belong to
what stands there. -/
theorem Outline.Made.node {i : Item} {parts : List Outline} (h : Outline.Made (.node i parts)) :
    AllMade parts ∧ i.Fits parts := by
  generalize ho : Outline.node i parts = o at h
  cases h with
  | str | num =>
    cases ho
    exact ⟨allMade_nil, trivial⟩
  | superAccess | param | funcDecl | classDecl =>
    cases ho
    exact ⟨by simp, trivial⟩
  | ident | binding | access =>
    cases ho
    exact ⟨by simp, rfl⟩
  | importItem i => cases i <;> cases ho <;> exact ⟨by simp, trivial⟩
  | expr e =>
    obtain ⟨parts', he, hparts⟩ := outlineExpr_eq e
    cases ho.trans he
    exact ⟨hparts, he⟩
  | property p =>
    obtain ⟨parts', hp, hparts⟩ := outlineProperty_eq p
    cases ho.trans hp
    exact ⟨hparts, trivial⟩
  | pat p =>
    obtain ⟨parts', hp, hparts⟩ := outlinePat_eq p
    cases ho.trans hp
    exact ⟨hparts, trivial⟩
  | stmt s =>
    obtain ⟨parts', hs, hparts⟩ := outlineStmt_eq s
    cases ho.trans hs
    exact ⟨hparts, trivial⟩
  | function f =>
    obtain ⟨isAsync, isGenerator, typeParams, params, ret, body⟩ := f
    cases ho
    exact ⟨by simp, trivial⟩
  | cls c =>
    obtain ⟨isAbstract, typeParams, base, implemented, members⟩ := c
    cases ho
    exact ⟨by simp, trivial⟩
  | caught c =>
    obtain ⟨param, body⟩ := c
    cases ho
    exact ⟨by simp, trivial⟩
  | varDecl d =>
    obtain ⟨kind, decls⟩ := d
    cases ho
    exact ⟨by simp, trivial⟩
  | declarator d =>
    obtain ⟨target, init, definite⟩ := d
    cases init <;> cases ho <;> exact ⟨by simp, rfl⟩

/-! ### Ways down -/

/-- The items that a way down passes, each with the number of the part that it goes on with. -/
abbrev Trail := List (Item × Nat)

/-- A way down from an outline to one inside it. -/
inductive Outline.Reaches : Outline → Trail → Outline → Prop
  | here (o : Outline) : Reaches o [] o
  | down {i : Item} {parts : List Outline} {n : Nat} {o r : Outline} {t : Trail} :
    parts[n]? = some o → Reaches o t r → Reaches (.node i parts) ((i, n) :: t) r

/-- A way down from a statement of a program. -/
def Program.Reaches (p : Program) (t : Trail) (r : Outline) : Prop :=
  ∃ o ∈ outlineProgram p, o.Reaches t r

mutual

/-- Every item of an outline stands at the end of some way down. -/
theorem exists_reaches : ∀ (o : Outline) {j : Item}, j ∈ o.items →
    ∃ t parts, o.Reaches t (.node j parts)
  | .node i parts, j, hj => by
    rcases List.mem_cons.1 hj with rfl | hj
    · exact ⟨[], parts, .here _⟩
    · obtain ⟨n, o, t, parts', ho, hr⟩ := exists_reaches_part parts hj
      exact ⟨(i, n) :: t, parts', .down ho hr⟩

theorem exists_reaches_part : ∀ (os : List Outline) {j : Item}, j ∈ Outline.itemsOf os →
    ∃ (n : Nat) (o : Outline) (t : Trail) (parts : List Outline),
      os[n]? = some o ∧ o.Reaches t (.node j parts)
  | o :: os, j, hj => by
    rcases List.mem_append.1 hj with hj | hj
    · obtain ⟨t, parts, hr⟩ := exists_reaches o hj
      exact ⟨0, o, t, parts, rfl, hr⟩
    · obtain ⟨n, q, t, parts, hq, hr⟩ := exists_reaches_part os hj
      exact ⟨n + 1, q, t, parts, hq, hr⟩

end

theorem Program.exists_reaches {p : Program} {j : Item} (h : j ∈ p.items) :
    ∃ t parts, p.Reaches t (.node j parts) := by
  obtain ⟨n, o, t, parts, ho, hr⟩ := exists_reaches_part _ h
  exact ⟨t, parts, o, List.mem_of_getElem? ho, hr⟩

end Untangle
