import Untangle.Proofs.Prologues
import Untangle.Proofs.Settling

/-!
# Sequences are split in one run

What comes out of a sequence is split no further: the statements that one becomes are complete, and
so is the value that is left in its place. Only an arrow returns the last value of its sequence as it
stands, and that may be a sequence again.
-/

namespace Untangle

theorem eq_pure_iff {α : Type} {x : StateM Unit α} {a : α} : x = pure a ↔ result x = a := by
  constructor
  · rintro rfl
    rfl
  · rintro rfl
    rfl

namespace Pass

variable {e : Expr} {s : Stmt} {ss : List Stmt} {around : Expr → Stmt}

/-! ### Pieces -/

/-- The pass leaves a statement as it is, its parts included. -/
structure Rests (s : Stmt) : Prop where
  parts : result (editStmtParts splitting s) = s
  closed : splitsOpen s = false

theorem isWhole_of_unparen (h : ∀ e₁ e₂ es, e.unparen = .seq (e₁ :: e₂ :: es) → False) :
    isWhole e = true := by
  unfold isWhole
  split
  · rename_i he
    exact (h _ _ _ he).elim
  · rfl

theorem rests_of_isWhole (h : splitExpr e = e) (hwhole : isWhole e = true)
    (hassign : ∀ op b value, e = .assign op (.name b) value → False) : Rests (.expr e) := by
  refine ⟨congrArg Stmt.expr h, ?_⟩
  unfold splitsOpen
  split
  · rename_i he
    cases he
    exact (hassign _ _ _ rfl).elim
  · rename_i he
    cases he
    rw [hwhole]
    rfl
  · rename_i he
    exact (he _ rfl).elim

/-- What comes out of a value: expressions to rest in statements of their own, and a value that is
no sequence. -/
structure RestsApart (parts : List Expr × Expr) : Prop where
  before : ∀ e ∈ parts.1, Rests (.expr e)
  last : splitExpr parts.2 = parts.2
  whole : isWhole parts.2 = true

theorem flatten_rests :
    (∀ e, splitExpr e = e → ∀ n, ∀ x ∈ ((flattenExpr e).run n).1, Rests (.expr x)) ∧
    (∀ e, splitExpr e = e → ∀ n, RestsApart ((splitValue e).run n).1) ∧
    (∀ es d, es ≠ [] → result (editExprs splitting es) = es → ∀ n,
      RestsApart ((splitLast es d).run n).1) ∧
    (∀ es, result (editExprs splitting es) = es → ∀ n,
      ∀ x ∈ ((flattenEach es).run n).1, Rests (.expr x)) := by
  apply flattenExpr.mutual_induct
  case case1 =>
    intro e₁ e₂ es ih₁ ih₄ h n x hx
    injection h with h
    injection h with h₁ h
    rcases List.mem_append.1 hx with hx | hx
    · exact ih₁ h₁ _ x hx
    · exact ih₄ h _ x hx
  case case2 =>
    intro e e₁ e₂ es he ih h
    injection h with h
    simpa only [flattenExpr, he] using ih h
  case case3 =>
    intro e he h n x hx
    rw [flattenExpr] at hx
    split at hx
    · rename_i h'
      exact (he _ _ _ h').elim
    · cases List.mem_singleton.1 hx
      exact rests_of_isWhole h (isWhole_of_unparen he) (by simp)
  case case4 =>
    intro op b value ih h n x hx
    injection h with _ htarget hvalue
    have hvalue := ih hvalue n
    rw [flattenExpr] at hx
    rcases List.mem_append.1 hx with hx | hx
    · exact hvalue.before x hx
    · cases List.mem_singleton.1 hx
      exact ⟨congrArg₂ (fun t e => Stmt.expr (.assign op t e)) htarget hvalue.last,
        congrArg not hvalue.whole⟩
  case case5 =>
    intro e hseq hparen hassign h n x hx
    rw [flattenExpr] at hx
    · cases List.mem_singleton.1 hx
      refine rests_of_isWhole h (isWhole_of_unparen fun e₁ e₂ es he => ?_) hassign
      rw [Expr.unparen] at he
      · exact hseq _ _ _ he
      · exact hparen
    all_goals assumption
  case case6 =>
    intro e₁ e₂ es ih₁ ih₃ h n
    injection h with h
    injection h with h₁ h
    have hlast := ih₃ (List.cons_ne_nil e₂ es) h ((flattenExpr e₁).run (n + 1)).2
    refine ⟨fun x hx => ?_, hlast.last, hlast.whole⟩
    rcases List.mem_append.1 hx with hx | hx
    · exact ih₁ h₁ _ x hx
    · exact hlast.before x hx
  case case7 =>
    intro e e₁ e₂ es he ih h
    injection h with h
    simpa only [splitValue, he] using ih h
  case case8 =>
    intro e he h n
    rw [splitValue_whole (e := .paren e) he]
    exact ⟨List.forall_mem_nil _, h, isWhole_of_unparen he⟩
  case case9 =>
    intro e hseq hparen h n
    have hwhole : ∀ e₁ e₂ es, e.unparen = .seq (e₁ :: e₂ :: es) → False := by
      intro e₁ e₂ es he
      rw [Expr.unparen] at he
      · exact hseq _ _ _ he
      · exact hparen
    rw [splitValue_whole hwhole]
    exact ⟨List.forall_mem_nil _, h, isWhole_of_unparen hwhole⟩
  case case10 => exact fun _ h => absurd rfl h
  case case11 =>
    intro e d ih _ h n
    injection h with h
    exact ih h n
  case case12 =>
    intro e es d hes ih₁ ih₃ _ h n
    injection h with h₁ h
    have hlast := ih₃ (fun hnil => hes (by rw [hnil])) h ((flattenExpr e).run n).2
    rw [splitLast]
    · refine ⟨fun x hx => ?_, hlast.last, hlast.whole⟩
      rcases List.mem_append.1 hx with hx | hx
      · exact ih₁ h₁ _ x hx
      · exact hlast.before x hx
    · assumption
  case case13 => exact fun _ _ => List.forall_mem_nil _
  case case14 =>
    intro e es ih₁ ih₄ h n x hx
    injection h with h₁ h
    rcases List.mem_append.1 hx with hx | hx
    · exact ih₁ h₁ _ x hx
    · exact ih₄ h _ x hx

theorem splitPoint?_edited (hp : splitPoint? s = some (e, around)) : ∃ around',
    splitPoint? (result (editStmtParts splitting s)) = some (splitExpr e, around') ∧
    ∀ x, splitPoint? (around x) = some (x, around) ∧ (∀ y, around x ≠ .expr y) ∧
      result (editStmtParts splitting (around x)) = around' (splitExpr x) := by
  unfold splitPoint? at hp
  split at hp <;> cases hp
  case h_3 yes no => exact ⟨_, rfl, fun _ => ⟨rfl, nofun, rfl⟩⟩
  case h_7 test step body =>
    exact ⟨_, rfl, fun _ => ⟨rfl, nofun, rfl⟩⟩
  case h_8 test step body =>
    exact ⟨_, rfl, fun _ => ⟨rfl, nofun, rfl⟩⟩
  all_goals exact ⟨_, rfl, fun _ => ⟨rfl, nofun, rfl⟩⟩

theorem splitStmt_rests (h : result (editStmtParts splitting s) = s) (n : Nat) :
    ∀ t ∈ ((splitStmt s).run n).1, Rests t := by
  fun_cases splitStmt s with
  | case1 e =>
    injection h with h
    intro t ht
    obtain ⟨x, hx, rfl⟩ := List.mem_map.1 ht
    exact flatten_rests.1 e h n x hx
  | case2 s hexpr e around hp =>
    obtain ⟨around', hp', hedited⟩ := splitPoint?_edited hp
    rw [h, hp] at hp'
    injection hp' with hp'
    injection hp' with he haround
    have hparts := flatten_rests.2.1 e he.symm n
    intro t ht
    rcases List.mem_append.1 ht with ht | ht
    · obtain ⟨x, hx, rfl⟩ := List.mem_map.1 ht
      exact hparts.before x hx
    · cases List.mem_singleton.1 ht
      obtain ⟨hpoint, hne, hresult⟩ := hedited ((splitValue e).run n).1.2
      show Rests (around ((splitValue e).run n).1.2)
      refine ⟨by rw [hresult, hparts.last, haround], ?_⟩
      rw [splitsOpen_eq hne, hpoint]
      exact congrArg not hparts.whole
  | case3 s hexpr hp =>
    intro t ht
    cases List.mem_singleton.1 ht
    refine ⟨h, ?_⟩
    rw [splitsOpen_eq hexpr, hp]
    rfl

theorem splitStmts_rests (h : result (editStmts splitting ss) = ss) (n : Nat) :
    ∀ t ∈ ((splitStmts ss).run n).1, Rests t := by
  induction ss generalizing n with
  | nil => nofun
  | cons s ss ih =>
    injection h with hs h
    intro t ht
    rcases List.mem_append.1 ht with ht | ht
    · exact splitStmt_rests hs n t ht
    · exact ih h _ t ht

theorem splitStmts_of_rests (h : ∀ s ∈ ss, Rests s) : splitStmts ss = pure ss := by
  induction ss with
  | nil => rfl
  | cons s ss ih =>
    rw [List.forall_mem_cons] at h
    rw [splitStmts, splitStmt_of_whole h.1.closed, ih h.2]
    rfl

theorem editList_of_rests (h : ∀ s ∈ ss, Rests s) : editList splitting ss = pure ss := by
  have hparts : result (editStmts splitting ss) = ss := by
    rw [result_editStmts]
    exact (List.map_congr_left fun s hs => (h s hs).parts).trans (List.map_id' ss)
  refine eq_pure_iff.2 ?_
  show ((splitStmts (result (editStmts splitting ss))).run 0).1 = ss
  rw [hparts, splitStmts_of_rests h]
  rfl

/-! ### Arrows -/

/-- Whether the body of an arrow is a sequence that ends in a sequence. -/
def endsNested : Func → Bool
  | .mk _ _ _ _ _ (.expr e) => (seqParts? e).any fun parts => !isWhole parts.2
  | _ => false

/-- Counts arrows whose body is a sequence that ends in a sequence. -/
def nestedNoting : Edits Nat where
  arrow := fun f => do
    modify (· + (endsNested f).toNat)
    return f

section Edited

variable {σ : Type} {w : Edits σ} (hexpr : ∀ e, w.expr e = pure e)

include hexpr

theorem isWhole_getLast_edited (e : Expr) (es : List Expr) (s : σ)
    (h : ((editExprs w (e :: es)).run s).1 ≠ []) :
    isWhole (((editExprs w (e :: es)).run s).1.getLast h) =
      isWhole ((e :: es).getLast (List.cons_ne_nil e es)) := by
  induction es generalizing e s with
  | nil =>
    show isWhole ((editExpr w e).run s).1 = isWhole e
    rw [editExpr_eq_parts hexpr]
    exact isWhole_edited hexpr e s
  | cons e' es ih =>
    have hne : ((editExprs w (e' :: es)).run ((editExpr w e).run s).2).1 ≠ [] := nofun
    rw [List.getLast_cons (List.cons_ne_nil e' es), ← ih e' _ hne]
    exact congrArg isWhole (List.getLast_cons hne)

/-- Editing the parts of an arrow does not change how its body ends. -/
theorem endsNested_edited (f : Func) (s : σ) :
    endsNested ((editFunc w f).run s).1 = endsNested f := by
  obtain ⟨_, _, _, _, _, body⟩ := f
  cases body with
  | absent => rfl
  | block stmts => rfl
  | expr e =>
    show (seqParts? ((editExpr w e).run _).1).any _ = (seqParts? e).any _
    unfold seqParts?
    rw [editExpr_eq_parts hexpr, unparen_edited hexpr]
    generalize e.unparen = u
    cases u with
    | seq es =>
      obtain _ | ⟨e₁, _ | ⟨e₂, es⟩⟩ := es
      · rfl
      · rfl
      · exact congrArg not (isWhole_getLast_edited hexpr e₂ es _ (List.cons_ne_nil _ _))
    | _ => rfl

end Edited

theorem splitExprs_fixed {es : List Expr} :
    result (editExprs splitting es) = es ↔ ∀ e ∈ es, splitExpr e = e := by
  induction es with
  | nil => exact iff_of_true rfl nofun
  | cons e es ih =>
    rw [List.forall_mem_cons, ← ih]
    exact List.cons.injEq .. ▸ Iff.rfl

/-- What a sequence in the body of an arrow becomes rests, unless it ends in a sequence. -/
theorem seqParts?_rests {before : List Expr} {last : Expr} (h : seqParts? e = some (before, last))
    (he : splitExpr e = e) (hlast : isWhole last = true) (n : Nat) :
    ∀ s ∈ ((flattenEach before).run n).1.map Stmt.expr ++ [.return (some last)], Rests s := by
  have hfixed : splitExpr e.unparen = e.unparen := by rw [← unparen_splitExpr, he]
  unfold seqParts? at h
  split at h
  · rename_i e₁ e₂ es hu
    cases h
    rw [hu] at hfixed
    have hall : ∀ e ∈ e₁ :: e₂ :: es, splitExpr e = e :=
      splitExprs_fixed.1 (Expr.seq.inj hfixed)
    have hbefore := splitExprs_fixed.2 fun e he => hall e ((List.dropLast_sublist _).subset he)
    intro s hs
    rcases List.mem_append.1 hs with hs | hs
    · obtain ⟨x, hx, rfl⟩ := List.mem_map.1 hs
      exact flatten_rests.2.2.2 _ hbefore n x hx
    · cases List.mem_singleton.1 hs
      have hend := hall _ (List.mem_cons_of_mem _ (List.getLast_mem (List.cons_ne_nil e₂ es)))
      exact ⟨congrArg (fun e => Stmt.return (some e)) hend, congrArg not hlast⟩
  · cases h

/-! ### One run -/

/-- Where no arrow is counted, a step settles what it gives. -/
def Unnested {α : Type} (c : StateM Nat α) (x : StateM Unit α) (f : α → StateM Unit α) : Prop :=
  ∃ a k, (∀ n, c.run n = (a, n + k)) ∧ (k = 0 → Untangle.Settled x f)

theorem through_unnested : ThroughNodes fun c x f => Unnested c x f where
  pure h := ⟨_, 0, fun _ => rfl, fun _ => .pure h⟩
  node₁ := by
    rintro N α c x g f K ⟨a, k, hc, hx⟩ hf
    refine ⟨K a, k, fun n => ?_, fun hk => settled_node₁ _ _ (hx hk) (congrFun hf)⟩
    show (K (c.run n).1, (c.run n).2) = _
    rw [hc]
  both := by
    rintro α β c₁ x₁ f₁ c₂ x₂ f₂ ⟨a, k, hc₁, hx₁⟩ ⟨b, j, hc₂, hx₂⟩
    refine ⟨(a, b), k + j, fun n => ?_, fun hk => settled_both (hx₁ (by omega)) (hx₂ (by omega))⟩
    show ((((c₁.run n).1, (c₂.run (c₁.run n).2).1), (c₂.run (c₁.run n).2).2) : (α × β) × Nat) = _
    rw [hc₁, hc₂, Nat.add_assoc]

theorem arrow_settles {f : Func} (hf : editFunc splitting f = pure f)
    (hends : endsNested f = false) :
    Untangle.Settled (splitting.arrow f) (fun f => do splitting.arrow (← editFunc splitting f)) := by
  intro t
  show (editFunc splitting ((splitArrow f).run 0).1 >>= splitting.arrow) =
    pure ((splitArrow f).run 0).1
  have hkept : splitArrow f = pure f → (editFunc splitting ((splitArrow f).run 0).1 >>=
      splitting.arrow) = pure ((splitArrow f).run 0).1 := by
    intro hsame
    rw [hsame]
    show (editFunc splitting f >>= splitting.arrow) = pure f
    rw [hf]
    exact congrArg uncounted hsame
  obtain ⟨isAsync, isGenerator, typeParams, params, ret, body⟩ := f
  cases body with
  | absent | block => exact hkept rfl
  | expr e =>
    cases he : seqParts? e with
    | none => exact hkept (by rw [splitArrow, he])
    | some p =>
      obtain ⟨before, last⟩ := p
      have hlast : isWhole last = true := by simpa [endsNested, he] using hends
      obtain ⟨-, -, htypes, hparams, hret, hbody⟩ := Func.mk.inj (eq_pure_iff.1 hf)
      have hblock := eq_pure_iff.1 (editList_of_rests
        (seqParts?_rests he (Body.expr.inj hbody) hlast 1))
      rw [splitArrow, he]
      refine eq_pure_iff.2 ?_
      show Func.mk isAsync isGenerator (result (editTypeParams splitting typeParams))
        (result (editPats splitting params)) (result (editAnn splitting ret))
        (.block (result (editList splitting (((flattenEach before).run 1).1.map Stmt.expr ++
          [.return (some last)])))) = _
      rw [hblock, show result (editTypeParams splitting typeParams) = typeParams from htypes,
        show result (editPats splitting params) = params from hparams,
        show result (editAnn splitting ret) = ret from hret]
      rfl

theorem single_settles (hs : editStmtParts splitting s = pure s) :
    Untangle.Settled (splitting.single s)
      (fun s => do splitting.single (← editStmtParts splitting s)) := by
  intro t
  have hrests := splitStmt_rests (eq_pure_iff.1 hs) 0
  have hone : ∀ s, Rests s → (do splitting.single (← editStmtParts splitting s)) = pure s := by
    intro s hs
    refine eq_pure_iff.2 ?_
    show ((sequenceEdits.single (result (editStmtParts splitting s))).run 0).1 = s
    rw [hs.parts]
    show ((splitStmt s >>= _ : StateM Nat Stmt).run 0).1 = s
    rw [splitStmt_of_whole hs.closed]
    rfl
  refine hone _ ?_
  show Rests ((sequenceEdits.single s).run 0).1
  simp only [sequenceEdits, StateT.run_bind]
  generalize (splitStmt s).run 0 = pieces at hrests ⊢
  show Rests ((_ : StateM Nat Stmt).run pieces.2).1
  split
  · rename_i s' h
    exact hrests s' (by rw [h]; exact List.mem_singleton_self _)
  · exact ⟨congrArg Stmt.block (eq_pure_iff.1 (editList_of_rests hrests)), rfl⟩

theorem splitting_settles :
    Edits.Compares (fun c x f => Unnested c x f) nestedNoting splitting splitting where
  toThroughNodes := through_unnested
  ident _ := ⟨_, 0, fun _ => rfl, fun _ => .pure rfl⟩
  label _ := ⟨_, 0, fun _ => rfl, fun _ => .pure rfl⟩
  str _ := ⟨_, 0, fun _ => rfl, fun _ => .pure rfl⟩
  num _ := ⟨_, 0, fun _ => rfl, fun _ => .pure rfl⟩
  expr _ h := h
  base _ h := h
  arrow f := by
    rintro ⟨a, k, hc, hx⟩
    refine ⟨a, k + (endsNested a).toNat, fun n => ?_, fun hk t => ?_⟩
    · show (((editFunc nestedNoting f).run n).1, ((editFunc nestedNoting f).run n).2 +
        (endsNested ((editFunc nestedNoting f).run n).1).toNat) = _
      rw [hc, Nat.add_assoc]
    · have ha : endsNested a = endsNested f := by
        rw [← endsNested_edited (w := nestedNoting) (fun _ => rfl) f 0, hc]
      have hf : endsNested f = false := by
        cases h : endsNested f <;> simp_all
      exact arrow_settles (hx (by omega) t) ((endsNested_edited (fun _ => rfl) f t).trans hf) t
  key _ h := h
  access _ h := h
  varDecl _ h := h
  single _ := fun ⟨a, k, hc, hx⟩ => ⟨a, k, hc, fun hk => (hx hk).andThen fun _ => single_settles⟩
  labelled _ h := h
  list _ := fun ⟨a, k, hc, hx⟩ => ⟨a, k, hc, fun hk => (hx hk).andThen fun _ hss _ =>
    editList_of_rests (splitStmts_rests (eq_pure_iff.1 hss) 0)⟩
  shorthand := through_unnested.shorthand (fun _ => rfl) (fun _ => rfl) fun _ => rfl
  assigned := through_unnested.assigned (fun _ => rfl) (fun _ => rfl) fun _ => rfl

/-! ### What is counted -/

theorem sequenceWeight : SplitWeight (fun i : Item => i.isSequence.toNat) 1 :=
  ⟨fun _ => rfl, fun _ => rfl, fun _ => rfl, fun _ => rfl, fun _ => rfl, fun _ _ _ _ => rfl⟩

theorem unparen_of_not_isWhole (h : isWhole e = false) :
    ∃ e₁ e₂ es, e.unparen = .seq (e₁ :: e₂ :: es) := by
  unfold isWhole at h
  split at h
  · exact ⟨_, _, _, by assumption⟩
  · cases h

theorem le_of_loses {n m : Nat} {a b : List Outline}
    (h : Loses (fun i : Item => i.isSequence.toNat) 1 n a m b) : n ≤ m := by
  obtain ⟨k, rfl, -⟩ := h
  exact Nat.le_add_right n k

theorem lt_count_of_not_isWhole (h : isWhole e = false) (n : Nat) :
    n < ((flattenExpr e).run n).2 ∧ n < ((splitValue e).run n).2 := by
  obtain ⟨e₁, e₂, es, he⟩ := unparen_of_not_isWhole h
  induction e using Expr.unparen_induct with
  | paren e ih => simpa only [flattenExpr, splitValue, show e.unparen = _ from he] using ih h he
  | bare e hbare =>
    obtain rfl : e = .seq (e₁ :: e₂ :: es) := hbare.symm.trans he
    obtain ⟨hflatten, -, hlast, heach⟩ := flatten_loses sequenceWeight
    have hfirst : n < ((flattenExpr e₁).run (n + 1)).2 := le_of_loses (hflatten e₁ (n + 1))
    exact ⟨Nat.lt_of_lt_of_le hfirst (le_of_loses (heach (e₂ :: es) _)),
      Nat.lt_of_lt_of_le hfirst (le_of_loses (hlast (e₂ :: es) e₂ (List.cons_ne_nil e₂ es) _))⟩

theorem lt_count_of_splitsOpen (h : splitsOpen s = true) (n : Nat) :
    n < ((splitStmt s).run n).2 := by
  fun_cases splitStmt s with
  | case1 e =>
    show n < ((flattenExpr e).run n).2
    unfold splitsOpen at h
    split at h
    · rename_i he
      cases he
      rw [flattenExpr]
      exact (lt_count_of_not_isWhole (by simpa using h) n).2
    · rename_i he
      cases he
      exact (lt_count_of_not_isWhole (by simpa using h) n).1
    · rename_i he
      exact (he _ rfl).elim
  | case2 s hexpr e around hp =>
    rw [splitsOpen_eq hexpr, hp] at h
    exact (lt_count_of_not_isWhole (by simpa using h) n).2
  | case3 s hexpr hp =>
    rw [splitsOpen_eq hexpr, hp] at h
    cases h

theorem splitStmt_of_count {n : Nat} (h : ((splitStmt s).run n).2 ≤ n) :
    splitStmt s = pure [s] := by
  refine splitStmt_of_whole (Bool.eq_false_iff.2 fun hopen => ?_)
  exact Nat.not_le.2 (lt_count_of_splitsOpen hopen n) h

/-! ### Where nothing is counted -/

/-- Asks that no statement can be split, be it in a list or by itself; those with a label are left
out. -/
def unsplitNoting : Edits Prop where
  single := fun s => do
    modify (· ∧ splitStmt s = pure [s])
    return s
  labelled := pure
  list := fun ss => do
    modify (· ∧ ∀ s ∈ ss, splitStmt s = pure [s])
    return ss

/-- A step that counts nothing changes nothing, and then what another asks is so. -/
def Quiet {α : Type} (c : StateM Prop α) (x : StateM Nat α) : Prop :=
  ∃ a P, (∀ Q, c.run Q = (a, Q ∧ P)) ∧
    ∀ n, n ≤ (x.run n).2 ∧ ((x.run n).2 = n → P ∧ (x.run n).1 = a)

namespace Quiet

variable {α β : Type} {c : StateM Prop α} {x : StateM Nat α} {f : α → StateM Prop β}
  {g : α → StateM Nat β}

theorem pure (a : α) : Quiet (pure a) (pure a) :=
  ⟨a, True, fun Q => Prod.ext rfl (and_true Q).symm,
    fun n => ⟨Nat.le_refl n, fun _ => ⟨trivial, rfl⟩⟩⟩

theorem bind (h : Quiet c x) (hf : ∀ a, Quiet (f a) (g a)) : Quiet (c >>= f) (x >>= g) := by
  obtain ⟨a, P, hc, hx⟩ := h
  obtain ⟨b, R, hb, hy⟩ := hf a
  refine ⟨b, P ∧ R, fun Q => ?_, fun n => ?_⟩
  · show (f (c.run Q).1).run (c.run Q).2 = _
    rw [hc, hb, and_assoc]
  · show n ≤ ((g (x.run n).1).run (x.run n).2).2 ∧ (((g (x.run n).1).run (x.run n).2).2 = n → _)
    obtain ⟨hle, hsame⟩ := hx n
    obtain ⟨_, _, _, hy'⟩ := hf (x.run n).1
    have hle' := (hy' (x.run n).2).1
    refine ⟨Nat.le_trans hle hle', fun hn => ?_⟩
    have hcount : (x.run n).2 = n := by omega
    obtain ⟨hP, ha⟩ := hsame hcount
    rw [hcount, ha] at hn
    obtain ⟨hR, hb⟩ := (hy n).2 hn
    refine ⟨⟨hP, hR⟩, ?_⟩
    show ((g (x.run n).1).run (x.run n).2).1 = b
    rw [hcount, ha, hb]

end Quiet

theorem list_quiet (ss : List Stmt) : Quiet (unsplitNoting.list ss) (splitStmts ss) := by
  refine ⟨ss, _, fun _ => rfl, fun n => ⟨le_of_loses (splitStmts_loses sequenceWeight ss n), ?_⟩⟩
  induction ss with
  | nil => exact fun _ => ⟨nofun, rfl⟩
  | cons s ss ih =>
    intro hn
    have hrest := le_of_loses (splitStmts_loses sequenceWeight ss ((splitStmt s).run n).2)
    have hs : splitStmt s = pure [s] :=
      splitStmt_of_count (Nat.le_trans hrest (Nat.le_of_eq hn))
    rw [splitStmts, hs] at hn ⊢
    obtain ⟨hall, hss⟩ := ih hn
    exact ⟨List.forall_mem_cons.2 ⟨hs, hall⟩, congrArg (List.cons s) hss⟩

theorem single_quiet (s : Stmt) : Quiet (unsplitNoting.single s) (sequenceEdits.single s) := by
  refine ⟨s, _, fun _ => rfl, fun n => ⟨le_of_loses (single_loses sequenceWeight s n), ?_⟩⟩
  intro hn
  have hcount := (weigh_asOne sequenceWeight ((splitStmt s).run n).1 ((splitStmt s).run n).2).2
  have hs : splitStmt s = pure [s] := splitStmt_of_count (Nat.le_of_eq (hcount.symm.trans hn))
  refine ⟨hs, ?_⟩
  show ((splitStmt s >>= _ : StateM Nat Stmt).run n).1 = s
  rw [hs]
  rfl

theorem arrow_quiet (f : Func) : Quiet (unsplitNoting.arrow f) (splitArrow f) := by
  refine ⟨f, True, fun Q => Prod.ext rfl (and_true Q).symm, fun n => ?_⟩
  fun_cases splitArrow f with
  | case1 isAsync isGenerator typeParams params ret e before last he =>
    have hlt : n < ((flattenEach before).run (n + 1)).2 :=
      le_of_loses ((flatten_loses sequenceWeight).2.2.2 before (n + 1))
    exact ⟨Nat.le_of_lt hlt, fun hn => absurd hn (Nat.ne_of_gt hlt)⟩
  | case2 | case3 => exact ⟨Nat.le_refl n, fun _ => ⟨trivial, rfl⟩⟩

theorem unsplit_quiet :
    Edits.Compares (fun c x _ => Quiet c x) unsplitNoting sequenceEdits sequenceEdits where
  pure _ := .pure _
  node₁ h _ := h.bind fun _ => .pure _
  both h₁ h₂ := h₁.bind fun _ => h₂.bind fun _ => .pure _
  ident _ := .pure _
  label _ := .pure _
  str _ := .pure _
  num _ := .pure _
  expr _ h := h
  base _ h := h
  arrow _ h := h.bind arrow_quiet
  key _ h := h
  access _ h := h
  varDecl _ h := h
  single _ h := h.bind single_quiet
  labelled _ h := h.bind fun _ => .pure _
  list _ h := h.bind list_quiet
  shorthand _ := .pure _
  assigned b _ hb he :=
    (hb.bind fun c => he.bind fun x => .pure (PatProp.ofName b.id.name c x) :)

end Pass

/-- How many arrows have a sequence for a body that ends in a sequence. -/
def Program.nestedArrows (p : Program) : Nat := ((editProgram Pass.nestedNoting p).run 0).2

/-- No statement can be split, be it in a list or by itself; those with a label are left out. -/
def Program.Unsplit (p : Program) : Prop := ((editProgram Pass.unsplitNoting p).run True).2

namespace Pass

/-- **Sequences are split in one run.** Unless an arrow has a sequence for a body that ends in a
sequence, a second run changes nothing and counts nothing, and no statement can be split. -/
theorem splitSequences_settles (p : Program) (h : p.nestedArrows = 0) :
    splitSequences (splitSequences p).1 = ((splitSequences p).1, []) ∧
      (splitSequences p).1.Unsplit := by
  generalize hq : (splitSequences p).1 = q
  have hsettled : editProgram splitting q = pure q := by
    obtain ⟨a, k, hc, hx⟩ := splitting_settles.onProgram p
    have hk : 0 + k = 0 := (congrArg Prod.snd (hc 0)).symm.trans h
    rw [← hq, splitSequences_eq]
    exact hx (by omega) ()
  have hsame : ((editProgram sequenceEdits q).run 0).1 = q :=
    (splitSequences_eq q).trans (eq_pure_iff.1 hsettled)
  have hcount : ((editProgram sequenceEdits q).run 0).2 = 0 := by
    obtain ⟨k, hk, hweigh⟩ := (sequenceEdits_relatesOutlines sequenceWeight
      (fun _ _ h => congrArg _ (isSequence_edited h))
      fun e n => congrArg _ (expr_edited e n).2).program q 0
    rw [hsame, show k • 1 = k from Nat.mul_one k] at hweigh
    omega
  refine ⟨?_, ?_⟩
  · show (((editProgram sequenceEdits q).run 0).1,
      findings _ [(_, ((editProgram sequenceEdits q).run 0).2)]) = (q, [])
    rw [hsame, hcount]
    rfl
  · obtain ⟨a, P, hc, hx⟩ := unsplit_quiet.onProgram q
    rw [Program.Unsplit, hc]
    exact ⟨trivial, ((hx 0).2 hcount).1⟩

/-- `() => (f(), last)` -/
def arrowOfSequence (last : Expr) : Program where
  grammar := .script
  body := [.expr (.arrow (.mk false false [] [] none
    (.expr (.paren (.seq [.call (.ofName "f") [], last])))))]

theorem splitSequences_settles_arrow :
    (arrowOfSequence (.ofName "x")).nestedArrows = 0 ∧
      (splitSequences (splitSequences (arrowOfSequence (.ofName "x"))).1).2 = [] :=
  ⟨by decide, congrArg Prod.snd (splitSequences_settles _ (by decide)).1⟩

/-- A sequence at the end of a sequence that an arrow returns is left to a second run. -/
theorem splitSequences_returns_sequence :
    (splitSequences (splitSequences (arrowOfSequence
      (.paren (.seq [.call (.ofName "g") [], .ofName "x"])))).1).2.isEmpty = false := by
  decide

end Pass

end Untangle
