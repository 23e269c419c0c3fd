import Untangle.Proofs.Execution
import Untangle.Tree.Outline

/-!
# What code mentions

* `stmts_mentionOnly` — the acts of some statements mention only what the statements mention.
-/

namespace Untangle

/-- The variables that some outlines mention, once per occurrence. -/
def mentionsOf (os : List Outline) : List Binding := (identsOf os).map Ident.binding

def Outline.mentions (o : Outline) : List Binding := mentionsOf [o]

theorem itemsOf_append (os qs : List Outline) :
    Outline.itemsOf (os ++ qs) = Outline.itemsOf os ++ Outline.itemsOf qs := by
  induction os with
  | nil => rfl
  | cons o os ih => simp [Outline.itemsOf, ih]

@[simp] theorem mentionsOf_nil : mentionsOf [] = [] := rfl

@[simp] theorem mentionsOf_append (os qs : List Outline) :
    mentionsOf (os ++ qs) = mentionsOf os ++ mentionsOf qs := by
  simp [mentionsOf, identsOf, itemsOf_append]

@[simp] theorem mentionsOf_cons (o : Outline) (os : List Outline) :
    mentionsOf (o :: os) = o.mentions ++ mentionsOf os :=
  mentionsOf_append [o] os

theorem mentionsOf_eq (os : List Outline) : mentionsOf os = os.flatMap Outline.mentions := by
  induction os with
  | nil => rfl
  | cons o os ih => rw [mentionsOf_cons, List.flatMap_cons, ih]

theorem mentionsOf_perm {os qs : List Outline} (h : os.Perm qs) :
    (mentionsOf os).Perm (mentionsOf qs) := by
  rw [mentionsOf_eq, mentionsOf_eq]
  exact h.flatMap_right _

@[simp] theorem Outline.mentions_node (item : Item) (parts : List Outline) :
    (Outline.node item parts).mentions =
      (item.ident?.map Ident.binding).toList ++ mentionsOf parts := by
  cases h : item.ident? <;>
    simp [Outline.mentions, mentionsOf, identsOf, Outline.itemsOf, Outline.items, h]

@[simp] theorem Outline.mentions_leaf_ident (id : Ident) :
    (Outline.leaf (.ident id)).mentions = [id.binding] := rfl

@[simp] theorem outlineStmts_append (ss ts : List Stmt) :
    outlineStmts (ss ++ ts) = outlineStmts ss ++ outlineStmts ts := by
  simp [outlineStmts_eq_map]

def Act.mentions : Act → List Binding
  | .eval e => (outlineExpr e).mentions
  | .bind p => (outlinePat p).mentions

def MentionOnly (xs : List Act) (bs : List Binding) : Prop := ∀ x ∈ xs, ∀ b ∈ x.mentions, b ∈ bs

/-! ### Acts mention what their code mentions -/

namespace MentionOnly

variable {xs ys : List Act} {bs cs : List Binding}

theorem nil : MentionOnly [] bs := fun _ h => absurd h List.not_mem_nil

theorem append (hx : MentionOnly xs bs) (hy : MentionOnly ys cs) :
    MentionOnly (xs ++ ys) (bs ++ cs) := by
  intro x h b hb
  rcases List.mem_append.1 h with h | h
  · exact List.mem_append_left _ (hx x h b hb)
  · exact List.mem_append_right _ (hy x h b hb)

theorem one (x : Act) : MentionOnly [x] x.mentions := by
  simp [MentionOnly]

theorem cons (x : Act) (h : MentionOnly xs bs) : MentionOnly (x :: xs) (x.mentions ++ bs) :=
  (one x).append h

theorem mono (h : MentionOnly xs bs) (hsub : ∀ b ∈ bs, b ∈ cs) : MentionOnly xs cs :=
  fun x hx b hb => hsub b (h x hx b hb)

end MentionOnly

theorem declarators_mentionOnly (ds : List Declarator) :
    MentionOnly (ds.flatMap Declarator.acts) (mentionsOf (outlineDeclarators ds)) := by
  induction ds with
  | nil => exact .nil
  | cons d ds ih =>
    have hd : MentionOnly d.acts (outlineDeclarator d).mentions := by
      obtain ⟨target, init, definite⟩ := d
      cases init with
      | none => exact (MentionOnly.one _).mono (by simp +contextual [outlineDeclarator, Act.mentions])
      | some e =>
        exact (MentionOnly.cons _ (.one _)).mono
          (by simp +contextual [outlineDeclarator, Act.mentions, or_imp])
    exact (hd.append ih).mono (by simp [outlineDeclarators])

theorem varDecl_mentionOnly (d : VarDecl) : MentionOnly d.acts (outlineVarDecl d).mentions := by
  obtain ⟨kind, ds⟩ := d
  exact (declarators_mentionOnly ds).mono (by simp +contextual [outlineVarDecl])

theorem enumMembers_mentionOnly (ms : List EnumMember) :
    MentionOnly (ms.flatMap EnumMember.acts) (mentionsOf (outlineEnumMembers ms)) := by
  induction ms with
  | nil => exact .nil
  | cons m ms ih =>
    obtain ⟨name, init⟩ := m
    cases init with
    | none => exact ih.mono (by simp +contextual [outlineEnumMembers])
    | some e =>
      exact (ih.cons (.eval e)).mono
        (by simp +contextual [outlineEnumMembers, outlineEnumMember, Act.mentions])

theorem class_mentionOnly (name : Option Ident) (c : Class) :
    MentionOnly (Class.acts name c) (mentionsOf (outlineIdent? name ++ [outlineClass c])) := by
  cases name with
  | none => exact (MentionOnly.one _).mono (by simp [Act.mentions, outlineExpr, Item.ident?])
  | some id =>
    exact (MentionOnly.cons _ (.one _)).mono (by simp +contextual [Act.mentions, outlineExpr,
      outlinePat, outlineBinding, outlineIdent?, Item.ident?, BindingName.ofIdent, outlineAnn, or_imp])

theorem decl_mentionOnly : ∀ d : Decl, MentionOnly d.acts (mentionsOf (outlineDecl d))
  | .func .. | .iface _ | .typeAlias .. => .nil
  | .cls name c => (class_mentionOnly (some name) c).mono
      (by simp +contextual [outlineDecl, outlineIdent?, Item.ident?])
  | .var d => (varDecl_mentionOnly d).mono (by simp +contextual [outlineDecl])
  | .enum _ _ ms => (enumMembers_mentionOnly ms).mono (by simp +contextual [outlineDecl])
  | .ambient d => decl_mentionOnly d

theorem head_mentionOnly (head : ForHead) : MentionOnly head.acts (mentionsOf (outlineHead head)) := by
  cases head with
  | absent => exact .nil
  | var d => exact (varDecl_mentionOnly d).mono (by simp +contextual [outlineHead])
  | pat | expr => exact (MentionOnly.one _).mono (by simp [Act.mentions, outlineHead])

theorem eval?_mentionOnly (e : Option Expr) :
    MentionOnly (e.map Act.eval).toList (mentionsOf (e.map outlineExpr).toList) := by
  cases e with
  | none => exact .nil
  | some e => exact (MentionOnly.one _).mono (by simp [Act.mentions])

mutual

theorem stmt_mentionOnly : ∀ s : Stmt, MentionOnly s.acts (outlineStmt s).mentions
  | .expr e | .return (some e) | .throw e | .exportDefaultExpr e =>
    (MentionOnly.one (.eval e)).mono (by simp [outlineStmt, Act.mentions, Item.ident?])
  | .block body | .try body none none =>
    (stmts_mentionOnly body).mono (by simp [outlineStmt, Item.ident?])
  | .with e body | .while e body | .doWhile body e | .ite e body none =>
    ((stmt_mentionOnly body).cons (.eval e)).mono
      (by simp +contextual [outlineStmt, Act.mentions, Item.ident?])
  | .labelled _ body => (stmt_mentionOnly body).mono (by simp +contextual [outlineStmt, Item.ident?])
  | .ite test yes (some no) =>
    (((stmt_mentionOnly yes).append (stmt_mentionOnly no)).cons (.eval test)).mono
      (by simp [outlineStmt, Act.mentions, Item.ident?])
  | .switch disc cases =>
    ((cases_mentionOnly cases).cons (.eval disc)).mono
      (by simp [outlineStmt, Act.mentions, Item.ident?])
  | .try body (some c) none =>
    ((stmts_mentionOnly body).append (catch_mentionOnly c)).mono
      (by simp [outlineStmt, Item.ident?])
  | .try body none (some f) =>
    ((stmts_mentionOnly body).append (stmts_mentionOnly f)).mono
      (by simp [outlineStmt, Item.ident?])
  | .try body (some c) (some f) =>
    (((stmts_mentionOnly body).append (catch_mentionOnly c)).append (stmts_mentionOnly f)).mono
      (by simp [outlineStmt, Item.ident?])
  | .for init test step body =>
    ((((head_mentionOnly init).append (eval?_mentionOnly test)).append
      (eval?_mentionOnly step)).append (stmt_mentionOnly body)).mono
        (by cases test <;> cases step <;> simp [outlineStmt, Item.ident?])
  | .forIn head obj body | .forOf _ head obj body =>
    (((head_mentionOnly head).append (stmt_mentionOnly body)).cons (.eval obj)).mono
      (by simp +contextual [outlineStmt, Act.mentions, or_imp])
  | .decl d | .exportDecl d => (decl_mentionOnly d).mono (by simp [outlineStmt, Item.ident?])
  | .exportDefaultClass name c =>
    (class_mentionOnly name c).mono (by simp [outlineStmt, Item.ident?])
  | .empty | .debugger | .return none | .break _ | .continue _ | .importDecl .. | .exportNamed ..
  | .exportAll .. | .exportDefaultFunc .. | .exportDefaultInterface _ => .nil

theorem stmts_mentionOnly : ∀ ss : List Stmt, MentionOnly (stmtsActs ss) (mentionsOf (outlineStmts ss))
  | [] => .nil
  | s :: ss =>
    ((stmt_mentionOnly s).append (stmts_mentionOnly ss)).mono (by simp [outlineStmts])

theorem catch_mentionOnly : ∀ c : Catch, MentionOnly c.acts (outlineCatch c).mentions
  | .mk none body => (stmts_mentionOnly body).mono (by simp [outlineCatch, Item.ident?])
  | .mk (some p) body =>
    ((stmts_mentionOnly body).cons (.bind p)).mono
      (by simp +contextual [outlineCatch, Act.mentions])

theorem cases_mentionOnly : ∀ cs : List Case, MentionOnly (casesActs cs) (mentionsOf (outlineCases cs))
  | [] => .nil
  | .mk none body :: rest =>
    ((stmts_mentionOnly body).append (cases_mentionOnly rest)).mono
      (by simp [outlineCases, outlineCase])
  | .mk (some e) body :: rest =>
    (((stmts_mentionOnly body).append (cases_mentionOnly rest)).cons (.eval e)).mono
      (by simp [outlineCases, outlineCase, Act.mentions])

end

end Untangle
