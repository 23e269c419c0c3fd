import Mathlib.Data.List.Perm.Basic
import Untangle.Binding.Hoist
import Untangle.Proofs.NameEdits
import Untangle.Tree.Build
import Untangle.Tree.Outline

/-!
# The outlines of edited trees

Edits go through a tree from the inside out and may carry a state along. Where each edit of a node
keeps some relation between outlines before and after, and between the states, so does the edit of
the whole tree.

A function is outlined in another order than it is edited in, so the order of outlines must not
matter to the relation.

* `Edits.RelatesOutlines` — what is asked of an edit; `program` is what follows.
-/

namespace Untangle

open Outline (leaf)

variable {σ α : Type}

/-! ### Items -/

variable {i : Item} {o : Outline} {os : List Outline}

theorem mem_itemsOf_cons :
    i ∈ Outline.itemsOf (o :: os) ↔ i ∈ o.items ∨ i ∈ Outline.itemsOf os := List.mem_append

theorem mem_itemsOf_node {j : Item} :
    j ∈ Outline.itemsOf [.node i os] ↔ j = i ∨ j ∈ Outline.itemsOf os := by
  simp [Outline.itemsOf, Outline.items]

theorem mem_itemsOf_perm {qs : List Outline} (h : os.Perm qs) :
    i ∈ Outline.itemsOf os ↔ i ∈ Outline.itemsOf qs := by
  induction h with
  | nil => rfl
  | cons o _ ih => rw [mem_itemsOf_cons, mem_itemsOf_cons, ih]
  | swap o q os =>
    simp only [mem_itemsOf_cons]
    exact or_left_comm
  | trans _ _ ih ih' => exact ih.trans ih'

/-! ### Relations that edits keep -/

/-- A relation between outlines before and after, from one state to another. -/
abbrev OutlineRel (σ : Type) := σ → List Outline → σ → List Outline → Prop

abbrev OutlineRel.Gives (Rel : OutlineRel σ) (before : List Outline) (x : StateM σ α)
    (after : α → List Outline) : Prop :=
  ∀ n, Rel n before (x.run n).2 (after (x.run n).1)

/-- What stands at a node other than an expression or a statement, and what stands there once its
parts are edited. -/
inductive Item.Edited (w : Edits σ) : Item → Item → Prop
  | binding (b : BindingName) (n : σ) :
    Edited w (.binding b) (.binding ((editBinding w b).run n).1)
  | access (obj obj' : Expr) (prop : MemberProp) (n : σ) :
    Edited w (.access obj prop) (.access obj' ((editAccess w prop).run n).1)
  | superAccess (prop : MemberProp) (n : σ) :
    Edited w (.superAccess prop) (.superAccess ((editAccess w prop).run n).1)
  | property (p : Property) (n : σ) :
    Edited w (.property p) (.property ((editProperty w p).run n).1)
  | pat (p : Pat) (n : σ) : Edited w (.pat p) (.pat ((editPat w p).run n).1)
  | param (p : Pat) (n : σ) : Edited w (.param p) (.param ((editPat w p).run n).1)
  | func (f : Func) (n : σ) : Edited w (.func f) (.func ((editFunc w f).run n).1)
  | cls (c : Class) (n : σ) : Edited w (.cls c) (.cls ((editClass w c).run n).1)
  | caught (c : Catch) (n : σ) : Edited w (.caught c) (.caught ((editCatch w c).run n).1)
  | varDecl (d : VarDecl) (n : σ) :
    Edited w (.varDecl d) (.varDecl ((editVarDeclParts w d).run n).1)
  | declarator (d : Declarator) (n : σ) :
    Edited w (.declarator d) (.declarator ((editDeclarator w d).run n).1)
  | funcDecl (name : Ident) (f f' : Func) (n : σ) :
    Edited w (.funcDecl name f) (.funcDecl ((w.ident name).run n).1 f')
  | classDecl (name : Ident) (c c' : Class) (n : σ) :
    Edited w (.classDecl name c) (.classDecl ((w.ident name).run n).1 c')
  | importItem (i : ImportItem) {i' : ImportItem} (n : σ) :
    i'.binding = ((w.ident i.binding).run n).1 → Edited w (.importItem i) (.importItem i')

/-- Edits that keep relations between outlines. What is not edited is left out. -/
structure Edits.RelatesOutlines (w : Edits σ) (Open Raw Rel : OutlineRel σ) : Prop where
  text : KeepsText w.ident := by exact fun _ _ => rfl
  nil : ∀ n, Rel n [] n []
  append : ∀ {n m k a a' b b'}, Rel n a m a' → Rel m b k b' → Rel n (a ++ b) k (a' ++ b')
  perm : ∀ {n m a a' b b'}, a.Perm b → a'.Perm b' → Rel n a m a' → Rel n b m b'
  ident : ∀ id, Rel.Gives [leaf (.ident id)] (w.ident id) fun id => [leaf (.ident id)]
  label : ∀ id, Rel.Gives [leaf (.ident id)] (w.label id) fun id => [leaf (.ident id)]
  /-- A name that is not edited. -/
  word : ∀ x n, Rel n [leaf (.ident { name := x })] n [leaf (.ident { name := x })]
  str : ∀ s, Rel.Gives [leaf (.str s)] (w.str s) fun s => [leaf (.str s)]
  num : ∀ x, Rel.Gives [leaf (.num x)] (w.num x) fun x => [leaf (.num x)]
  node : ∀ {n m i i' os os'}, i.Edited w i' → Rel n os m os' → Rel n [.node i os] m [.node i' os']
  exprNode : ∀ {n m os os'} e, Rel n os m os' →
    Open n [.node (.expr e) os] m [.node (.expr ((editParts w e).run n).1) os']
  expr : ∀ {n m a} e, Open n a m [outlineExpr e] →
    Rel n a ((w.expr e).run m).2 [outlineExpr ((w.expr e).run m).1] := by exact fun _ h => h
  base : ∀ {n m a} e, Open n a m [outlineExpr e] →
    Rel n a ((w.base e).run m).2 [outlineExpr ((w.base e).run m).1] := by exact fun _ h => h
  arrow : ∀ {n m a} f, Rel n a m (outlineArrow f) →
    Rel n a ((w.arrow f).run m).2 (outlineArrow ((w.arrow f).run m).1) := by exact fun _ h => h
  key : ∀ {n m a} k, Rel n a m (outlineKey k) →
    Rel n a ((w.key k).run m).2 (outlineKey ((w.key k).run m).1) := by exact fun _ h => h
  access : ∀ {n m a} k, Rel n a m (outlineAccess k) →
    Rel n a ((w.access k).run m).2 (outlineAccess ((w.access k).run m).1) := by exact fun _ h => h
  varDecl : ∀ {n m a} d, Rel n a m [outlineVarDecl d] →
    Rel n a ((w.varDecl d).run m).2 [outlineVarDecl ((w.varDecl d).run m).1] := by exact fun _ h => h
  stmt : ∀ {n m os os'} s, Rel n os m os' →
    Raw n [.node (.stmt s) os] m [.node (.stmt ((editStmtParts w s).run n).1) os']
  rawNil : ∀ n, Raw n [] n []
  rawCons : ∀ {n m k o o' os os'}, Raw n [o] m [o'] → Raw m os k os' →
    Raw n (o :: os) k (o' :: os')
  single : ∀ {n m a} s, Raw n a m [outlineStmt s] →
    Rel n a ((w.single s).run m).2 [outlineStmt ((w.single s).run m).1] := by exact fun _ h => h
  labelled : ∀ {n m a} s, Raw n a m [outlineStmt s] →
    Rel n a ((w.labelled s).run m).2 [outlineStmt ((w.labelled s).run m).1] := by exact fun _ h => h
  list : ∀ {n m a} ss, Raw n a m (outlineStmts ss) →
    Rel n a ((w.list ss).run m).2 (outlineStmts ((w.list ss).run m).1) := by exact fun _ h => h

namespace Edits.RelatesOutlines

variable {α : Type}

/-- The order of the parts of a function, as it is edited and as it is outlined. -/
theorem perm_parts (a b c d : List α) : (a ++ (b ++ (c ++ d))).Perm (b ++ d ++ a ++ c) := by
  have hlast : (c ++ (d ++ a)).Perm (d ++ (a ++ c)) := by
    rw [← List.append_assoc d]
    exact List.perm_append_comm
  calc (a ++ (b ++ (c ++ d))).Perm (b ++ (c ++ d) ++ a) := List.perm_append_comm
    _ = b ++ (c ++ (d ++ a)) := by simp
    (b ++ (c ++ (d ++ a))).Perm (b ++ (d ++ (a ++ c))) := hlast.append_left b
    _ = b ++ d ++ a ++ c := by simp

theorem perm_class (a b c d : List α) : (a ++ (b ++ (c ++ d))).Perm (d ++ b ++ a ++ c) :=
  (perm_parts a b c d).trans ((List.perm_append_comm.append_right a).append_right c)

theorem perm_field (a b c : List α) : (a ++ (b ++ c)).Perm (a ++ c ++ b) := by
  rw [List.append_assoc]
  exact List.perm_append_comm.append_left a

variable {w : Edits σ} {Open Raw Rel : OutlineRel σ} (hw : w.RelatesOutlines Open Raw Rel)

include hw

theorem cons {n m k : σ} {o' : Outline} {os' : List Outline} (h : Rel n [o] m [o'])
    (h' : Rel m os k os') : Rel n (o :: os) k (o' :: os') :=
  hw.append h h'

/-! ### Names, literals and types -/

theorem lit_rel : ∀ l : Lit, Rel.Gives (outlineLit l) (editLit w l) outlineLit
  | .str s, n => hw.str s n
  | .num x, n => hw.num x n
  | .bool _, n | .null, n | .bigint _, n | .regex .., n => hw.nil n

theorem idents_rel : ∀ ids : List Ident,
    Rel.Gives (outlineIdents ids) (editIdents w ids) outlineIdents
  | [], n => hw.nil n
  | id :: ids, n => hw.cons (hw.ident id n) (idents_rel ids _)

mutual

theorem type_rel : ∀ t : TypeExpr, Rel.Gives (outlineType t) (editType w t) outlineType
  | .keyword _, n => hw.nil n
  | .ref path args, n => hw.append (hw.idents_rel path n) (types_rel args _)
  | .union parts, n | .intersection parts, n | .tuple parts, n => types_rel parts n
  | .array t, n | .paren t, n => type_rel t n
  | .lit l, n => hw.lit_rel l n
  | .typeQuery path, n => hw.idents_rel path n

theorem types_rel : ∀ ts : List TypeExpr, Rel.Gives (outlineTypes ts) (editTypes w ts) outlineTypes
  | [], n => hw.nil n
  | t :: ts, n => hw.append (type_rel t n) (types_rel ts _)

end

theorem ann_rel : ∀ t : Option TypeExpr, Rel.Gives (outlineAnn t) (editAnn w t) outlineAnn
  | none, n => hw.nil n
  | some t, n => hw.type_rel t n

theorem typeParams_rel : ∀ ts : List TypeParam,
    Rel.Gives (outlineTypeParams ts) (editTypeParams w ts) outlineTypeParams
  | [], n => hw.nil n
  | t :: ts, n => hw.append
      (hw.cons (hw.ident t.name n) (hw.append (hw.ann_rel t.bound _) (hw.ann_rel t.fallback _)))
      (typeParams_rel ts _)

theorem binding_rel (b : BindingName) :
    Rel.Gives [outlineBinding b] (editBinding w b) fun b => [outlineBinding b] :=
  fun n => hw.node (.binding b n) (hw.cons (hw.ident b.id n) (hw.ann_rel b.ann _))

theorem bindings_rel : ∀ bs : List BindingName,
    Rel.Gives (bs.map outlineBinding) (editBindings w bs) (List.map outlineBinding)
  | [], n => hw.nil n
  | b :: bs, n => hw.cons (hw.binding_rel b n) (bindings_rel bs _)

theorem signatures_rel : ∀ ss : List Signature,
    Rel.Gives (ss.flatMap outlineSignature) (editSignatures w ss) (List.flatMap outlineSignature)
  | [], n => hw.nil n
  | .property _ key _ type :: ss, n => hw.append
      (hw.cons (hw.word key n) (hw.ann_rel type n)) (signatures_rel ss _)
  | .method key _ params ret :: ss, n => hw.append
      (hw.cons (hw.word key n) (hw.append (hw.bindings_rel params n) (hw.ann_rel ret _)))
      (signatures_rel ss _)

theorem interface_rel (i : Interface) :
    Rel.Gives (outlineInterface i) (editInterface w i) outlineInterface :=
  fun n => hw.cons (hw.ident i.name n) (hw.append (hw.append (hw.typeParams_rel i.typeParams _)
    (hw.types_rel i.bases _)) (hw.signatures_rel i.members _))

theorem moduleName_rel : ∀ x : ModuleName,
    Rel.Gives [outlineModuleName x] (editModuleName w x) fun x => [outlineModuleName x]
  | .ident id, n => hw.ident id n
  | .str s, n => hw.str s n

theorem moduleName?_rel : ∀ x : Option ModuleName,
    Rel.Gives (outlineModuleName? x) (editModuleName? w x) outlineModuleName?
  | none, n => hw.nil n
  | some x, n => hw.moduleName_rel x n

theorem imports_rel : ∀ is : List ImportItem,
    Rel.Gives (is.map outlineImport) (editImports w is) (List.map outlineImport)
  | [], n => hw.nil n
  | .named isType imported id :: is, n => hw.cons
      (hw.node (.importItem (.named isType imported id) n rfl)
        (hw.cons (hw.ident id n) (hw.moduleName?_rel imported _)))
      (imports_rel is _)
  | .default id :: is, n =>
    hw.cons (hw.node (.importItem (.default id) n rfl) (hw.ident id n)) (imports_rel is _)
  | .namespace id :: is, n =>
    hw.cons (hw.node (.importItem (.namespace id) n rfl) (hw.ident id n)) (imports_rel is _)

theorem exports_rel : ∀ es : List ExportItem,
    Rel.Gives (es.flatMap outlineExport) (editExports w es) (List.flatMap outlineExport)
  | [], n => hw.nil n
  | .named _ item exported :: es, n => hw.append
      (hw.cons (hw.moduleName_rel item n) (hw.moduleName?_rel exported _)) (exports_rel es _)
  | .namespace x :: es, n => hw.append (hw.moduleName_rel x n) (exports_rel es _)
  | .default id :: es, n => hw.append (hw.ident id n) (exports_rel es _)

theorem ident?_rel : ∀ id : Option Ident,
    Rel.Gives (outlineIdent? id) (editIdent? w id) outlineIdent?
  | none, n => hw.nil n
  | some id, n => hw.ident id n

theorem label?_rel : ∀ id : Option Ident,
    Rel.Gives (outlineIdent? id) (editLabel? w id) outlineIdent?
  | none, n => hw.nil n
  | some id, n => hw.label id n

theorem str?_rel : ∀ s : Option StrLit, Rel.Gives (outlineStr? s) (editStr? w s) outlineStr?
  | none, n => hw.nil n
  | some s, n => hw.str s n

/-! ### Expressions and statements -/

theorem ofName_text (id : Ident) (n : σ) :
    Property.ofName id.name ((w.ident id).run n).1 = .shorthand ((w.ident id).run n).1 :=
  if_pos (hw.text id n)

theorem patOfName_text (b : BindingName) (value : Option Expr)
    (n : σ) : PatProp.ofName b.id.name ((editBinding w b).run n).1 value =
      .assign ((editBinding w b).run n).1 value :=
  if_pos (hw.text b.id n)

mutual

theorem parts_rel : ∀ e : Expr, Open.Gives [outlineExpr e] (editParts w e) fun e => [outlineExpr e]
  | .ident id, n => hw.exprNode _ (hw.ident id n)
  | .this, n | .hole, n | .newTarget, n | .importMeta, n | .privateName _, n | .placeholder, n =>
    hw.exprNode _ (hw.nil n)
  | .lit l, n => hw.exprNode _ (hw.lit_rel l n)
  | .array elems, n | .seq elems, n | .superCall elems, n | .importCall elems, n
  | .template _ elems, n => hw.exprNode _ (exprs_rel elems n)
  | .object props, n => hw.exprNode _ (properties_rel props n)
  | .func name f, n => hw.exprNode _ (hw.append (hw.ident?_rel name n) (func_rel f _))
  | .arrow f, n => hw.exprNode _ (hw.arrow _ (arrow_rel f n))
  | .cls name c, n => hw.exprNode _ (hw.append (hw.ident?_rel name n) (class_rel c _))
  | .unary _ e, n | .update _ _ e, n | .await e, n | .paren e, n | .spread e, n | .nonNull e, n =>
    hw.exprNode _ (hw.expr _ (parts_rel e n))
  | .yield _ e, n => hw.exprNode _ (expr?_rel e n)
  | .typed _ e t, n | .typeAssert t e, n =>
    hw.exprNode _ (hw.cons (hw.expr _ (parts_rel e n)) (hw.type_rel t _))
  | .binary _ left right, n => hw.exprNode _
      (hw.cons (hw.expr _ (parts_rel left n)) (hw.expr _ (parts_rel right _)))
  | .assign _ t value, n => hw.exprNode _
      (hw.append (target_rel t n) (hw.expr _ (parts_rel value _)))
  | .cond test yes no, n => hw.exprNode _ (hw.cons (hw.expr _ (parts_rel test n))
      (hw.cons (hw.expr _ (parts_rel yes _)) (hw.expr _ (parts_rel no _))))
  | .member obj prop, n | .chainMember _ obj prop, n => hw.exprNode _ (hw.node (.access _ _ prop _)
      (hw.cons (hw.base _ (parts_rel obj n)) (access_rel prop _)))
  | .superMember prop, n => hw.exprNode _ (hw.node (.superAccess prop n) (access_rel prop n))
  | .call callee args, n | .chainCall _ callee args, n | .tagged callee _ args, n =>
    hw.exprNode _ (hw.cons (hw.base _ (parts_rel callee n)) (exprs_rel args _))
  | .new callee args, n =>
    hw.exprNode _ (hw.cons (hw.base _ (parts_rel callee n)) (exprs?_rel args _))

theorem expr?_rel : ∀ e : Option Expr, Rel.Gives (outlineExpr? e) (editExpr? w e) outlineExpr?
  | none, n => hw.nil n
  | some e, n => hw.expr _ (parts_rel e n)

theorem exprs_rel : ∀ es : List Expr, Rel.Gives (outlineExprs es) (editExprs w es) outlineExprs
  | [], n => hw.nil n
  | e :: es, n => hw.cons (hw.expr _ (parts_rel e n)) (exprs_rel es _)

theorem exprs?_rel : ∀ es : Option (List Expr),
    Rel.Gives (outlineExprs? es) (editExprs? w es) outlineExprs?
  | none, n => hw.nil n
  | some es, n => exprs_rel es n

theorem property_rel : ∀ p : Property,
    Rel.Gives [outlineProperty p] (editProperty w p) fun p => [outlineProperty p]
  | .shorthand id, n => by
    have hitem := Item.Edited.property (w := w) (.shorthand id) n
    have hname : ((editProperty w (.shorthand id)).run n).1 = .shorthand ((w.ident id).run n).1 :=
      hw.ofName_text id n
    rw [hname] at hitem ⊢
    exact hw.node hitem (hw.ident id n)
  | .keyValue k value, n => hw.node (.property _ n)
      (hw.append (key_rel k n) (hw.expr _ (parts_rel value _)))
  | .initialized id value, n => hw.node (.property _ n)
      (hw.cons (hw.ident id n) (hw.expr _ (parts_rel value _)))
  | .getter k ss, n => hw.node (.property _ n)
      (hw.append (key_rel k n) (hw.list _ (stmts_rel ss _)))
  | .setter k param ss, n => hw.node (.property _ n)
      (hw.append (key_rel k n) (hw.cons (pat_rel param _) (hw.list _ (stmts_rel ss _))))
  | .method k f, n => hw.node (.property _ n) (hw.append (key_rel k n) (func_rel f _))
  | .spread e, n => hw.node (.property _ n) (hw.expr _ (parts_rel e n))

theorem properties_rel : ∀ ps : List Property,
    Rel.Gives (outlineProperties ps) (editProperties w ps) outlineProperties
  | [], n => hw.nil n
  | p :: ps, n => hw.cons (property_rel p n) (properties_rel ps _)

theorem properties?_rel : ∀ ps : Option (List Property),
    Rel.Gives (outlineProperties? ps) (editProperties? w ps) outlineProperties?
  | none, n => hw.nil n
  | some ps, n => properties_rel ps n

theorem key_rel : ∀ k : PropName, Rel.Gives (outlineKey k) (editKey w k) outlineKey
  | .computed e, n => hw.key _ (hw.expr _ (parts_rel e n))
  | .str s, n => hw.key _ (hw.str s n)
  | .num x, n => hw.key _ (hw.num x n)
  | .name _, n | .bigint _, n | .privateName _, n => hw.key _ (hw.nil n)

theorem access_rel : ∀ a : MemberProp, Rel.Gives (outlineAccess a) (editAccess w a) outlineAccess
  | .computed e, n => hw.access _ (hw.expr _ (parts_rel e n))
  | .name _, n | .privateName _, n => hw.access _ (hw.nil n)

theorem target_rel : ∀ t : AssignTarget, Rel.Gives (outlineTarget t) (editTarget w t) outlineTarget
  | .name b, n => hw.binding_rel b n
  | .member obj prop, n => hw.node (.access _ _ prop _)
      (hw.cons (hw.base _ (parts_rel obj n)) (access_rel prop _))
  | .superMember prop, n => hw.node (.superAccess prop n) (access_rel prop n)
  | .paren e, n => hw.expr _ (parts_rel e n)
  | .chain e, n | .typed e, n => hw.base _ (parts_rel e n)
  | .pattern p, n => pat_rel p n

theorem pat_rel : ∀ p : Pat, Rel.Gives [outlinePat p] (editPat w p) fun p => [outlinePat p]
  | .name b, n => hw.node (.pat _ n) (hw.binding_rel b n)
  | .array elems ann, n => hw.node (.pat _ n) (hw.append (pats_rel elems n) (hw.ann_rel ann _))
  | .object props ann, n => hw.node (.pat _ n) (hw.append (patProps_rel props n) (hw.ann_rel ann _))
  | .rest p ann, n => hw.node (.pat _ n) (hw.cons (pat_rel p n) (hw.ann_rel ann _))
  | .assign left right, n => hw.node (.pat _ n)
      (hw.cons (pat_rel left n) (hw.expr _ (parts_rel right _)))
  | .expr e, n => hw.node (.pat _ n) (hw.expr _ (parts_rel e n))
  | .field _ _ p, n => hw.node (.pat _ n) (pat_rel p n)
  | .hole, n => hw.node (.pat .hole n) (hw.nil n)
  | .invalid, n => hw.node (.pat .invalid n) (hw.nil n)

theorem pats_rel : ∀ ps : List Pat, Rel.Gives (outlinePats ps) (editPats w ps) outlinePats
  | [], n => hw.nil n
  | p :: ps, n => hw.cons (pat_rel p n) (pats_rel ps _)

theorem pat?_rel : ∀ p : Option Pat, Rel.Gives (outlinePat? p) (editPat? w p) outlinePat?
  | none, n => hw.nil n
  | some p, n => pat_rel p n

theorem patProp_rel : ∀ p : PatProp, Rel.Gives (outlinePatProp p) (editPatProp w p) outlinePatProp
  | .keyValue k value, n => hw.append (key_rel k n) (pat_rel value _)
  | .assign b e, n => by
    have h := hw.cons (hw.binding_rel b n) (expr?_rel e ((editBinding w b).run n).2)
    have hname : ((editPatProp w (.assign b e)).run n).1 = .assign ((editBinding w b).run n).1
        ((editExpr? w e).run ((editBinding w b).run n).2).1 := hw.patOfName_text b _ n
    rw [hname]
    exact h
  | .rest p, n => pat_rel p n

theorem patProps_rel : ∀ ps : List PatProp,
    Rel.Gives (outlinePatProps ps) (editPatProps w ps) outlinePatProps
  | [], n => hw.nil n
  | p :: ps, n => hw.append (patProp_rel p n) (patProps_rel ps _)

theorem func_rel : ∀ f : Func,
    Rel.Gives [outlineFunction f] (editFunc w f) fun f => [outlineFunction f]
  | .mk _ _ typeParams params ret body, n => hw.node (.func _ n)
      (hw.perm (perm_parts ..) (perm_parts ..)
        (hw.append (hw.typeParams_rel typeParams n) (hw.append (params_rel params _)
          (hw.append (hw.ann_rel ret _) (body_rel body _)))))

theorem arrow_rel : ∀ f : Func, Rel.Gives (outlineArrow f) (editFunc w f) outlineArrow
  | .mk _ _ typeParams params ret body, n => hw.perm (perm_parts ..) (perm_parts ..)
      (hw.append (hw.typeParams_rel typeParams n) (hw.append (pats_rel params _)
        (hw.append (hw.ann_rel ret _) (body_rel body _))))

theorem params_rel : ∀ ps : List Pat, Rel.Gives (outlineParams ps) (editPats w ps) outlineParams
  | [], n => hw.nil n
  | p :: ps, n => by
    have hp := pat_rel p n
    have hps := params_rel ps ((editPat w p).run n).2
    cases p with
    | field => exact hw.cons hp hps
    | _ => exact hw.cons (hw.node (.param _ n) hp) hps

theorem body_rel : ∀ b : Body, Rel.Gives (outlineBody b) (editBody w b) outlineBody
  | .absent, n => hw.nil n
  | .expr e, n => hw.expr _ (parts_rel e n)
  | .block ss, n => hw.list _ (stmts_rel ss n)

theorem class_rel : ∀ c : Class,
    Rel.Gives [outlineClass c] (editClass w c) fun c => [outlineClass c]
  | .mk _ typeParams base implemented members, n => hw.node (.cls _ n)
      (hw.perm (perm_class ..) (perm_class ..)
        (hw.append (hw.typeParams_rel typeParams n) (hw.append (expr?_rel base _)
          (hw.append (hw.types_rel implemented _) (members_rel members _)))))

theorem member_rel : ∀ m : ClassMember, Rel.Gives (outlineMember m) (editMember w m) outlineMember
  | .ctor _ k params body, n =>
    hw.append (hw.append (key_rel k n) (params_rel params _)) (body_rel body _)
  | .method _ _ k f, n => hw.append (key_rel k n) (func_rel f _)
  | .field _ k ann value, n => hw.perm (perm_field ..) (perm_field ..)
      (hw.append (key_rel k n) (hw.append (hw.ann_rel ann _) (expr?_rel value _)))
  | .staticBlock ss, n => hw.list _ (stmts_rel ss n)
  | .empty, n => hw.nil n

theorem members_rel : ∀ ms : List ClassMember,
    Rel.Gives (outlineMembers ms) (editMembers w ms) outlineMembers
  | [], n => hw.nil n
  | m :: ms, n => hw.append (member_rel m n) (members_rel ms _)

theorem stmt_rel : ∀ s : Stmt,
    Raw.Gives [outlineStmt s] (editStmtParts w s) fun s => [outlineStmt s]
  | .expr e, n | .throw e, n | .exportDefaultExpr e, n => hw.stmt _ (hw.expr _ (parts_rel e n))
  | .block ss, n => hw.stmt _ (hw.list _ (stmts_rel ss n))
  | .empty, n | .debugger, n => hw.stmt _ (hw.nil n)
  | .return e, n => hw.stmt _ (expr?_rel e n)
  | .with obj body, n | .while obj body, n =>
    hw.stmt _ (hw.cons (hw.expr _ (parts_rel obj n)) (hw.single _ (stmt_rel body _)))
  | .doWhile body test, n =>
    hw.stmt _ (hw.cons (hw.expr _ (parts_rel test n)) (hw.single _ (stmt_rel body _)))
  | .labelled label body, n =>
    hw.stmt _ (hw.cons (hw.label label n) (hw.labelled _ (stmt_rel body _)))
  | .break label, n | .continue label, n => hw.stmt _ (hw.label?_rel label n)
  | .ite test yes no, n => hw.stmt _ (hw.cons (hw.expr _ (parts_rel test n))
      (hw.cons (hw.single _ (stmt_rel yes _)) (stmt?_rel no _)))
  | .switch disc cases, n => hw.stmt _ (hw.cons (hw.expr _ (parts_rel disc n)) (cases_rel cases _))
  | .try body handler finalizer, n => hw.stmt _ (hw.append
      (hw.append (hw.list _ (stmts_rel body n)) (catch?_rel handler _)) (stmts?_rel finalizer _))
  | .for init test step body, n => hw.stmt _ (hw.append (hw.append (hw.append (head_rel init n)
      (expr?_rel test _)) (expr?_rel step _)) (hw.single _ (stmt_rel body _)))
  | .forIn head obj body, n | .forOf _ head obj body, n => hw.stmt _
      (hw.append (head_rel head n) (hw.cons (hw.expr _ (parts_rel obj _))
        (hw.single _ (stmt_rel body _))))
  | .decl d, n | .exportDecl d, n => hw.stmt _ (decl_rel d n)
  | .importDecl _ items source attrs, n => hw.stmt _
      (hw.append (hw.imports_rel items n) (hw.cons (hw.str source _) (properties?_rel attrs _)))
  | .exportNamed _ items source attrs, n => hw.stmt _ (hw.append
      (hw.append (hw.exports_rel items n) (hw.str?_rel source _)) (properties?_rel attrs _))
  | .exportAll _ source attrs, n =>
    hw.stmt _ (hw.cons (hw.str source n) (properties?_rel attrs _))
  | .exportDefaultFunc name f, n => hw.stmt _ (hw.append (hw.ident?_rel name n) (func_rel f _))
  | .exportDefaultClass name c, n => hw.stmt _ (hw.append (hw.ident?_rel name n) (class_rel c _))
  | .exportDefaultInterface i, n => hw.stmt _ (hw.interface_rel i n)

theorem stmts_rel : ∀ ss : List Stmt, Raw.Gives (outlineStmts ss) (editStmts w ss) outlineStmts
  | [], n => hw.rawNil n
  | s :: ss, n => hw.rawCons (stmt_rel s n) (stmts_rel ss _)

theorem stmt?_rel : ∀ s : Option Stmt, Rel.Gives (outlineStmt? s) (editStmt? w s) outlineStmt?
  | none, n => hw.nil n
  | some s, n => hw.single _ (stmt_rel s n)

theorem stmts?_rel : ∀ ss : Option (List Stmt),
    Rel.Gives (outlineStmts? ss) (editList? w ss) outlineStmts?
  | none, n => hw.nil n
  | some ss, n => hw.list _ (stmts_rel ss n)

theorem catch_rel : ∀ c : Catch,
    Rel.Gives [outlineCatch c] (editCatch w c) fun c => [outlineCatch c]
  | .mk p body, n => hw.node (.caught _ n)
      (hw.append (pat?_rel p n) (hw.list _ (stmts_rel body _)))

theorem catch?_rel : ∀ c : Option Catch, Rel.Gives (outlineCatch? c) (editCatch? w c) outlineCatch?
  | none, n => hw.nil n
  | some c, n => catch_rel c n

theorem case_rel : ∀ c : Case, Rel.Gives (outlineCase c) (editCase w c) outlineCase
  | .mk e body, n => hw.append (expr?_rel e n) (hw.list _ (stmts_rel body _))

theorem cases_rel : ∀ cs : List Case, Rel.Gives (outlineCases cs) (editCases w cs) outlineCases
  | [], n => hw.nil n
  | c :: cs, n => hw.append (case_rel c n) (cases_rel cs _)

theorem head_rel : ∀ h : ForHead, Rel.Gives (outlineHead h) (editHead w h) outlineHead
  | .absent, n => hw.nil n
  | .var d, n => varDecl_rel d n
  | .pat p, n => pat_rel p n
  | .expr e, n => hw.expr _ (parts_rel e n)

theorem varDecl_rel : ∀ d : VarDecl,
    Rel.Gives [outlineVarDecl d] (editVarDecl w d) fun d => [outlineVarDecl d]
  | .mk _ decls, n => hw.varDecl _ (hw.node (.varDecl _ n) (declarators_rel decls n))

theorem declarator_rel : ∀ d : Declarator,
    Rel.Gives [outlineDeclarator d] (editDeclarator w d) fun d => [outlineDeclarator d]
  | .mk target init _, n => hw.node (.declarator _ n)
      (hw.cons (pat_rel target n) (expr?_rel init _))

theorem declarators_rel : ∀ ds : List Declarator,
    Rel.Gives (outlineDeclarators ds) (editDeclarators w ds) outlineDeclarators
  | [], n => hw.nil n
  | d :: ds, n => hw.cons (declarator_rel d n) (declarators_rel ds _)

theorem decl_rel : ∀ d : Decl, Rel.Gives (outlineDecl d) (editDecl w d) outlineDecl
  | .func name f, n => hw.node (.funcDecl name f _ n) (hw.cons (hw.ident name n) (func_rel f _))
  | .cls name c, n => hw.node (.classDecl name c _ n) (hw.cons (hw.ident name n) (class_rel c _))
  | .var d, n => varDecl_rel d n
  | .iface i, n => hw.interface_rel i n
  | .typeAlias name typeParams t, n =>
    hw.cons (hw.ident name n) (hw.append (hw.typeParams_rel typeParams _) (hw.type_rel t _))
  | .enum _ name members, n => hw.cons (hw.ident name n) (enumMembers_rel members _)
  | .ambient d, n => decl_rel d n

theorem enumMember_rel : ∀ m : EnumMember,
    Rel.Gives (outlineEnumMember m) (editEnumMember w m) outlineEnumMember
  | .mk name init, n => hw.cons (hw.moduleName_rel name n) (expr?_rel init _)

theorem enumMembers_rel : ∀ ms : List EnumMember,
    Rel.Gives (outlineEnumMembers ms) (editEnumMembers w ms) outlineEnumMembers
  | [], n => hw.nil n
  | m :: ms, n => hw.append (enumMember_rel m n) (enumMembers_rel ms _)

end

theorem program (p : Program) : Rel.Gives (outlineProgram p) (editProgram w p) outlineProgram :=
  fun n => hw.list _ (hw.stmts_rel p.body n)

end Edits.RelatesOutlines

end Untangle
