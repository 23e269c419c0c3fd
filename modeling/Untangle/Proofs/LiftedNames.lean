import Untangle.Proofs.EditedResolution

/-!
# Names declared for the function around

A `var` declares its names for the function around it, from any block, loop head or pattern. So does
a function declared in a block, unless the block keeps it to itself.
-/

namespace Untangle

/-! ### Lifted names -/

def VarDecl.lifted : VarDecl → List Ident
  | .mk kind decls => if kind = .var then decls.flatMap Declarator.bound else []

/-- The names that a declaration declares for the function around it. The function `own` tells which
functions belong to their block only, as all do in strict code. -/
def Decl.lifted (own : String → Bool) : Decl → List Ident
  | .func name _ => if own name.name then [] else [name]
  | .var d => d.lifted
  | .ambient d => d.lifted own
  | .cls .. | .iface _ | .typeAlias .. | .enum .. => []

def ForHead.lifted : ForHead → List Ident
  | .var d => d.lifted
  | _ => []

mutual

/-- The names that a statement declares for the function around it. -/
def Stmt.lifted (own : String → Bool) : Stmt → List Ident
  | .block body => liftedOf own body
  | .with _ body => body.lifted own
  | .labelled _ body => body.lifted own
  | .ite _ yes no => yes.lifted own ++ (match no with
    | some s => s.lifted own
    | none => [])
  | .switch _ cases => liftedOfCases own cases
  | .try body handler finalizer =>
    liftedOf own body ++ (match handler with
      | some c => c.lifted own
      | none => []) ++ (match finalizer with
      | some f => liftedOf own f
      | none => [])
  | .while _ body => body.lifted own
  | .doWhile body _ => body.lifted own
  | .for init _ _ body => init.lifted ++ body.lifted own
  | .forIn head _ body => head.lifted ++ body.lifted own
  | .forOf _ head _ body => head.lifted ++ body.lifted own
  | .decl d => d.lifted own
  | .exportDecl d => d.lifted own
  | _ => []

def liftedOf (own : String → Bool) : List Stmt → List Ident
  | [] => []
  | s :: ss => s.lifted own ++ liftedOf own ss

def Catch.lifted (own : String → Bool) : Catch → List Ident
  | .mk _ body => liftedOf own body

def liftedOfCases (own : String → Bool) : List Case → List Ident
  | [] => []
  | .mk _ body :: rest => liftedOf own body ++ liftedOfCases own rest

end

/-- Functions belong to no block, as in code that is not strict. -/
def loosely (_ : String) : Bool := false

/-- The names that a statement list hoists, functions at any depth among them. -/
def hoistedIn (ss : List Stmt) : List Ident := liftedOf loosely ss

theorem liftedOf_append (own : String → Bool) (ss ts : List Stmt) :
    liftedOf own (ss ++ ts) = liftedOf own ss ++ liftedOf own ts := by
  induction ss with
  | nil => rfl
  | cons s ss ih => rw [List.cons_append, liftedOf, liftedOf, ih, List.append_assoc]

theorem liftedOf_singleton (own : String → Bool) (s : Stmt) : liftedOf own [s] = s.lifted own :=
  List.append_nil _

/-! #### More is lifted where blocks own less -/

section Loosely

variable {own : String → Bool} {x : Ident}

theorem Decl.mem_loosely : ∀ d : Decl, x ∈ d.lifted own → x ∈ d.lifted loosely
  | .func name _, h => by
    unfold Decl.lifted at h
    split at h
    · cases h
    · exact h
  | .var _, h => h
  | .ambient d, h => Decl.mem_loosely d h
  | .cls .., h | .iface _, h | .typeAlias .., h | .enum .., h => h

/-- What is in two lists in a row is in two others if each is in its own. -/
theorem mem_append_imp {a b c d : List Ident} (h : x ∈ a → x ∈ b) (h' : x ∈ c → x ∈ d)
    (hx : x ∈ a ++ c) : x ∈ b ++ d := List.mem_append.2 ((List.mem_append.1 hx).imp h h')

mutual

theorem Stmt.mem_loosely : ∀ s : Stmt, x ∈ s.lifted own → x ∈ s.lifted loosely
  | .block body, h => mem_hoistedIn body h
  | .with _ s, h | .labelled _ s, h | .while _ s, h | .doWhile s _, h => Stmt.mem_loosely s h
  | .ite _ yes none, h => mem_append_imp (Stmt.mem_loosely yes) id h
  | .ite _ yes (some no), h => mem_append_imp (Stmt.mem_loosely yes) (Stmt.mem_loosely no) h
  | .switch _ cases, h => mem_loosely_cases cases h
  | .try body none none, h => mem_append_imp (mem_append_imp (mem_hoistedIn body) id) id h
  | .try body (some c) none, h =>
    mem_append_imp (mem_append_imp (mem_hoistedIn body) (Catch.mem_loosely c)) id h
  | .try body none (some f), h =>
    mem_append_imp (mem_append_imp (mem_hoistedIn body) id) (mem_hoistedIn f) h
  | .try body (some c) (some f), h =>
    mem_append_imp (mem_append_imp (mem_hoistedIn body) (Catch.mem_loosely c)) (mem_hoistedIn f) h
  | .for _ _ _ s, h | .forIn _ _ s, h | .forOf _ _ _ s, h =>
    mem_append_imp id (Stmt.mem_loosely s) h
  | .decl d, h | .exportDecl d, h => Decl.mem_loosely d h
  | .expr _, h | .empty, h | .debugger, h | .return _, h | .break _, h | .continue _, h
  | .throw _, h | .importDecl .., h | .exportNamed .., h | .exportAll .., h
  | .exportDefaultExpr _, h | .exportDefaultFunc .., h | .exportDefaultClass .., h
  | .exportDefaultInterface _, h => h

theorem mem_hoistedIn : ∀ ss : List Stmt, x ∈ liftedOf own ss → x ∈ hoistedIn ss
  | [], h => h
  | s :: ss, h => mem_append_imp (Stmt.mem_loosely s) (mem_hoistedIn ss) h

theorem Catch.mem_loosely : ∀ c : Catch, x ∈ c.lifted own → x ∈ c.lifted loosely
  | .mk _ body, h => mem_hoistedIn body h

theorem mem_loosely_cases : ∀ cs : List Case,
    x ∈ liftedOfCases own cs → x ∈ liftedOfCases loosely cs
  | [], h => h
  | .mk _ body :: rest, h => mem_append_imp (mem_hoistedIn body) (mem_loosely_cases rest) h

end

end Loosely

/-! ### Names before and after -/

/-- The names that are declared before are declared after, those that are lost apart. What is
declared after was so before, under a name that is added if not. -/
structure Carries (lost added : List String) (before after : List Ident) : Prop where
  kept : ∀ d ∈ before, d.name ∈ after.map Ident.name ∨ d.name ∈ lost
  known : ∀ d ∈ after, d ∈ before ∨ d.name ∈ added

namespace Carries

variable {lost added : List String} {a b c d : List Ident}

theorem refl (a : List Ident) : Carries lost added a a :=
  ⟨fun _ hx => .inl (List.mem_map_of_mem hx), fun _ => .inl⟩

theorem of_eq (h : a = b) : Carries lost added a b := h ▸ refl a

theorem trans (h : Carries lost added a b) (h' : Carries lost added b c) :
    Carries lost added a c where
  kept x hx := by
    rcases h.kept x hx with hb | hl
    · obtain ⟨y, hy, hname⟩ := List.mem_map.1 hb
      exact hname ▸ h'.kept y hy
    · exact .inr hl
  known x hx := (h'.known x hx).elim (h.known x) .inr

theorem of_mem (h : Carries lost added a b) (hc : ∀ x, x ∈ c ↔ x ∈ a) (hd : ∀ x, x ∈ d ↔ x ∈ b) :
    Carries lost added c d where
  kept x hx := by
    refine (h.kept x ((hc x).1 hx)).imp (fun hb => ?_) id
    obtain ⟨y, hy, hname⟩ := List.mem_map.1 hb
    exact List.mem_map.2 ⟨y, (hd y).2 hy, hname⟩
  known x hx := (h.known x ((hd x).1 hx)).imp (hc x).2 id

theorem append (h : Carries lost added a b) (h' : Carries lost added c d) :
    Carries lost added (a ++ c) (b ++ d) where
  kept x hx := by
    rw [List.map_append, List.mem_append]
    rcases List.mem_append.1 hx with hx | hx
    · exact (h.kept x hx).imp .inl id
    · exact (h'.kept x hx).imp .inr id
  known x hx := by
    rcases List.mem_append.1 hx with hx | hx
    · exact (h.known x hx).imp (List.mem_append_left c) id
    · exact (h'.known x hx).imp (List.mem_append_right a) id

theorem mono {lost' added' : List String} (h : Carries lost added a b) (hl : lost ⊆ lost')
    (ha : added ⊆ added') : Carries lost' added' a b where
  kept x hx := (h.kept x hx).imp id fun hx => hl hx
  known x hx := (h.known x hx).imp id fun hx => ha hx

end Carries

/-- A relation between declarations before and after that goes through one step after another and
one list after another. -/
structure Composes (D : List Ident → List Ident → Prop) : Prop where
  refl : ∀ a, D a a
  trans : ∀ {a b c}, D a b → D b c → D a c
  append : ∀ {a b c d}, D a b → D c d → D (a ++ c) (b ++ d)

theorem Composes.of_eq {D : List Ident → List Ident → Prop} (hD : Composes D) {a b : List Ident}
    (h : a = b) : D a b := h ▸ hD.refl a

theorem Carries.composes (lost added : List String) : Composes (Carries lost added) :=
  ⟨refl, trans, append⟩

/-- What edits do to the names that are lifted from one node. -/
structure Edits.Lifts (w : Edits Unit) (own : String → Bool) (D : List Ident → List Ident → Prop) :
    Prop where
  composes : Composes D
  ident : ∀ id, result (w.ident id) = id
  varDecl : ∀ d, D d.lifted (result (w.varDecl d)).lifted
  single : ∀ s, D (s.lifted own) ((result (w.single s)).lifted own)
  labelled : ∀ s, D (s.lifted own) ((result (w.labelled s)).lifted own)
  list : ∀ ss, D (liftedOf own ss) (liftedOf own (result (w.list ss)))

theorem declared_edited {w : Edits Unit} (hw : ∀ id, result (w.ident id) = id)
    (ds : List Declarator) :
    (result (editDeclarators w ds)).flatMap Declarator.bound = ds.flatMap Declarator.bound := by
  rw [declaredBound_edit (f := id) hw, List.map_id]

/-! ### Notes on lists -/

section Notes

variable {ν : Type} (w : Edits Unit) (note : List Stmt → List ν)

mutual

/-- What is noted of the lists in a statement, each as it is when edits come to it. Functions in the
statement are left out. -/
def Stmt.notes : Stmt → List ν
  | .block body => notesOf body ++ note (result (editStmts w body))
  | .with _ s | .labelled _ s | .while _ s | .doWhile s _ | .for _ _ _ s | .forIn _ _ s
  | .forOf _ _ _ s => s.notes
  | .ite _ yes no => yes.notes ++ (match no with
    | some s => s.notes
    | none => [])
  | .switch _ cases => notesOfCases cases
  | .try body handler finalizer =>
    notesOf body ++ note (result (editStmts w body)) ++ (match handler with
      | some c => c.notes
      | none => []) ++ (match finalizer with
      | some f => notesOf f ++ note (result (editStmts w f))
      | none => [])
  | _ => []

def notesOf : List Stmt → List ν
  | [] => []
  | s :: ss => s.notes ++ notesOf ss

def Catch.notes : Catch → List ν
  | .mk _ body => notesOf body ++ note (result (editStmts w body))

def notesOfCases : List Case → List ν
  | [] => []
  | .mk _ body :: rest => notesOf body ++ note (result (editStmts w body)) ++ notesOfCases rest

end

/-- What is noted of a list and of the lists in it. -/
def notesIn (ss : List Stmt) : List ν := notesOf w note ss ++ note (result (editStmts w ss))

end Notes

/-- What edits that also change names do to the names that are lifted from one node, all names being
changed in one way. What happens between two steps or in two lists is told by the notes of both. -/
structure Edits.LiftsAs {ν : Type} (w : Edits Unit) (own : String → Bool) (f : Ident → Ident)
    (note : List Stmt → List ν) (D : List ν → List Ident → List Ident → Prop) : Prop where
  refl : ∀ a, D [] a a
  trans : ∀ {m n a b c}, D m a b → D n b c → D (m ++ n) a c
  append : ∀ {m n a b c d}, D m a b → D n c d → D (m ++ n) (a ++ c) (b ++ d)
  ident : ∀ id, result (w.ident id) = f id
  owned : ∀ id, own (f id).name = own id.name
  varDecl : ∀ d, D [] d.lifted (result (w.varDecl d)).lifted
  single : ∀ s, D [] (s.lifted own) ((result (w.single s)).lifted own)
  labelled : ∀ s, D [] (s.lifted own) ((result (w.labelled s)).lifted own)
  list : ∀ ss, D (note ss) (liftedOf own ss) (liftedOf own (result (w.list ss)))

namespace Edits.LiftsAs

variable {ν : Type} {w : Edits Unit} {own : String → Bool} {f : Ident → Ident}
  {note : List Stmt → List ν} {D : List ν → List Ident → List Ident → Prop} {m n : List ν}

theorem join (hw : w.LiftsAs own f note D) {a b c d : List Ident} (h : D m (a.map f) b)
    (h' : D n (c.map f) d) : D (m ++ n) ((a ++ c).map f) (b ++ d) := by
  rw [List.map_append]
  exact hw.append h h'

theorem step (hw : w.LiftsAs own f note D) {a b c : List Ident} (h : D m a b) (h' : D [] b c) :
    D m a c := List.append_nil m ▸ hw.trans h h'

theorem varDecl_edited (hw : w.LiftsAs own f note D) (d : VarDecl) :
    D [] (d.lifted.map f) (result (editVarDecl w d)).lifted := by
  cases d with
  | mk kind ds =>
    have h := hw.varDecl (.mk kind (result (editDeclarators w ds)))
    rw [VarDecl.lifted, declaredBound_edit hw.ident] at h
    rw [VarDecl.lifted, apply_ite (List.map f)]
    exact h

theorem head_edited (hw : w.LiftsAs own f note D) : ∀ h : ForHead,
    D [] (h.lifted.map f) (result (editHead w h)).lifted
  | .absent | .pat _ | .expr _ => hw.refl []
  | .var d => hw.varDecl_edited d

theorem decl_edited (hw : w.LiftsAs own f note D) : ∀ d : Decl,
    D [] ((d.lifted own).map f) ((result (editDecl w d)).lifted own)
  | .func name _ => by
    show D _ _ (if own (result (w.ident name)).name then [] else [result (w.ident name)])
    rw [hw.ident, hw.owned, Decl.lifted, apply_ite (List.map f)]
    exact hw.refl _
  | .var d => hw.varDecl_edited d
  | .ambient d => decl_edited hw d
  | .cls .. | .iface _ | .typeAlias .. | .enum .. => hw.refl []

mutual

theorem parts_edited (hw : w.LiftsAs own f note D) : ∀ s : Stmt,
    D (s.notes w note) ((s.lifted own).map f) ((result (editStmtParts w s)).lifted own)
  | .block body => edited hw body
  | .with _ s | .while _ s | .doWhile s _ => hw.step (parts_edited hw s) (hw.single _)
  | .labelled _ s => hw.step (parts_edited hw s) (hw.labelled _)
  | .ite _ yes none => hw.join (hw.step (parts_edited hw yes) (hw.single _)) (hw.refl _)
  | .ite _ yes (some no) =>
    hw.join (hw.step (parts_edited hw yes) (hw.single _))
      (hw.step (parts_edited hw no) (hw.single _))
  | .switch _ cases => cases_edited hw cases
  | .try body none none => hw.join (hw.join (edited hw body) (hw.refl _)) (hw.refl _)
  | .try body (some c) none => hw.join (hw.join (edited hw body) (catch_edited hw c)) (hw.refl _)
  | .try body none (some f) => hw.join (hw.join (edited hw body) (hw.refl _)) (edited hw f)
  | .try body (some c) (some f) =>
    hw.join (hw.join (edited hw body) (catch_edited hw c)) (edited hw f)
  | .for head _ _ s | .forIn head _ s | .forOf _ head _ s =>
    hw.join (hw.head_edited head) (hw.step (parts_edited hw s) (hw.single _))
  | .decl d | .exportDecl d => hw.decl_edited d
  | .expr _ | .empty | .debugger | .return _ | .break _ | .continue _ | .throw _ | .importDecl ..
  | .exportNamed .. | .exportAll .. | .exportDefaultExpr _ | .exportDefaultFunc ..
  | .exportDefaultClass .. | .exportDefaultInterface _ => hw.refl []

theorem stmts_edited (hw : w.LiftsAs own f note D) : ∀ ss : List Stmt,
    D (notesOf w note ss) ((liftedOf own ss).map f) (liftedOf own (result (editStmts w ss)))
  | [] => hw.refl []
  | s :: ss => hw.join (parts_edited hw s) (stmts_edited hw ss)

theorem edited (hw : w.LiftsAs own f note D) : ∀ ss : List Stmt,
    D (notesIn w note ss) ((liftedOf own ss).map f) (liftedOf own (result (editList w ss)))
  | [] => hw.trans (hw.refl []) (hw.list _)
  | s :: ss => hw.trans (hw.join (parts_edited hw s) (stmts_edited hw ss)) (hw.list _)

theorem catch_edited (hw : w.LiftsAs own f note D) : ∀ c : Catch,
    D (c.notes w note) ((c.lifted own).map f) ((result (editCatch w c)).lifted own)
  | .mk _ body => edited hw body

theorem cases_edited (hw : w.LiftsAs own f note D) : ∀ cs : List Case,
    D (notesOfCases w note cs) ((liftedOfCases own cs).map f)
      (liftedOfCases own (result (editCases w cs)))
  | [] => hw.refl []
  | .mk _ body :: rest => hw.join (edited hw body) (cases_edited hw rest)

end

end Edits.LiftsAs

namespace Edits.Lifts

variable {w : Edits Unit} {own : String → Bool} {D : List Ident → List Ident → Prop}

theorem mono {D' : List Ident → List Ident → Prop} (hw : w.Lifts own D) (hD : Composes D')
    (h : ∀ {a b}, D a b → D' a b) : w.Lifts own D' where
  composes := hD
  ident := hw.ident
  varDecl d := h (hw.varDecl d)
  single s := h (hw.single s)
  labelled s := h (hw.labelled s)
  list ss := h (hw.list ss)

/-- With nothing to note. -/
theorem liftsAs (hw : w.Lifts own D) : w.LiftsAs own id (fun _ => ([] : List Unit)) fun _ => D where
  refl := hw.composes.refl
  trans := hw.composes.trans
  append := hw.composes.append
  ident := hw.ident
  owned _ := rfl
  varDecl := hw.varDecl
  single := hw.single
  labelled := hw.labelled
  list := hw.list

theorem edited (hw : w.Lifts own D) (ss : List Stmt) :
    D (liftedOf own ss) (liftedOf own (result (editList w ss))) := by
  have h := hw.liftsAs.edited ss
  rwa [List.map_id] at h

end Edits.Lifts

end Untangle
