import Untangle.Proofs.ProxyParameters
import Untangle.Proofs.RemovedDeclarations

/-!
# What names refer to once proxies are inlined

Inlining a proxy puts its body where it was called. The arguments are in place there, but the other
names of the body refer to what they did only if the scopes around the call do not declare them anew
and still see them. Where this is so for all that the proxies of a program bring along, every name
of the result, looked up by its spelling, refers to the variable that it carries.
-/

namespace Untangle

open ScopeTree (block declarationsOf occurrencesOf rightOf everywhereOf)

/-! ### Occurrences with a property -/

/-- What refers to the right variables and has some property everywhere. -/
structure InPlace (P : Scoping → Bool × Ident → Prop) (env : Scoping) (ts : List ScopeTree) :
    Prop where
  right : rightOf [] env ts
  all : everywhereOf P env ts

variable {added declared : List Ident} {body head : List ScopeTree} {id : Ident} {e : Expr}

namespace InPlace

variable {P : Scoping → Bool × Ident → Prop} {env : Scoping} {ts us : List ScopeTree}

theorem nil : InPlace P env [] := ⟨trivial, trivial⟩

theorem append_iff : InPlace P env (ts ++ us) ↔ InPlace P env ts ∧ InPlace P env us := by
  constructor
  · rintro ⟨hright, hall⟩
    rw [ScopeTree.rightOf_append] at hright
    rw [ScopeTree.everywhereOf_append] at hall
    exact ⟨⟨hright.1, hall.1⟩, hright.2, hall.2⟩
  · rintro ⟨hts, hus⟩
    exact ⟨(ScopeTree.rightOf_append ts us).2 ⟨hts.right, hus.right⟩,
      (ScopeTree.everywhereOf_append ts us).2 ⟨hts.all, hus.all⟩⟩

theorem occurs {isRead : Bool} (hright : env id.name = id.scope) (hP : P env (isRead, id)) :
    InPlace P env [.occurs isRead id] :=
  ⟨⟨.inr hright, trivial⟩, hP, trivial⟩

theorem scope_iff :
    InPlace P env [.scope declared head added body] ↔
      (env.within declared).Declares [] declared ∧ InPlace P (env.within declared) head ∧
        ((env.within declared).within added).Declares [] added ∧
        InPlace P ((env.within declared).within added) body := by
  constructor
  · rintro ⟨⟨⟨hdeclared, hhead, hadded, hbody⟩, -⟩, ⟨hall, hall'⟩, -⟩
    exact ⟨hdeclared, ⟨hhead, hall⟩, hadded, hbody, hall'⟩
  · rintro ⟨hdeclared, hhead, hadded, hbody⟩
    exact ⟨⟨⟨hdeclared, hhead.right, hadded, hbody.right⟩, trivial⟩, ⟨hhead.all, hbody.all⟩, trivial⟩

end InPlace

/-! ### Substitution -/

section Substitution

variable {P : Scoping → Bool × Ident → Prop} {env : Scoping} {own : String → Bool}
  {values : Table Binding Expr}

/-- Whether a value takes the place of an occurrence. -/
def Replaces (values : Table Binding Expr) (o : Bool × Ident) : Prop :=
  o.1 = true ∧ (values.find? o.2.binding).isSome = true

/-- Code that declares nothing, before and after substitution: if what stays and what is put in is
in place, so is the result. -/
def Substitutes (P : Scoping → Bool × Ident → Prop) (env : Scoping) (values : Table Binding Expr)
    (before after : List ScopeTree) : Prop :=
  declarationsOf before = [] →
    (∀ o ∈ occurrencesOf before, ¬ Replaces values o → env o.2.name = o.2.scope ∧ P env o) →
    InPlace P env after

theorem Substitutes.append {a a' c c' : List ScopeTree} (h : Substitutes P env values a c)
    (h' : Substitutes P env values a' c') : Substitutes P env values (a ++ a') (c ++ c') := by
  intro hdecls hstay
  rw [ScopeTree.declarationsOf_append, List.append_eq_nil_iff] at hdecls
  rw [ScopeTree.occurrencesOf_append] at hstay
  exact InPlace.append_iff.2
    ⟨h hdecls.1 fun o ho => hstay o (List.mem_append_left _ ho),
      h' hdecls.2 fun o ho => hstay o (List.mem_append_right _ ho)⟩

theorem Substitutes.scope {head' body' : List ScopeTree}
    (hhead : Substitutes P env values head head') (hbody : Substitutes P env values body body') :
    Substitutes P env values [.scope declared head added body]
      [.scope declared head' added body'] := by
  intro hdecls hstay
  simp only [declarationsOf, ScopeTree.declarations, List.append_nil, List.append_eq_nil_iff] at hdecls
  obtain ⟨⟨⟨rfl, hdhead⟩, rfl⟩, hdbody⟩ := hdecls
  simp only [occurrencesOf, ScopeTree.occurrences, List.append_nil] at hstay
  have hdeclares : (env.within []).Declares [] [] := fun _ hd => absurd hd List.not_mem_nil
  exact InPlace.scope_iff.2 ⟨hdeclares, hhead hdhead fun o ho => hstay o (List.mem_append_left _ ho),
    hdeclares, hbody hdbody fun o ho => hstay o (List.mem_append_right _ ho)⟩

theorem Substitutes.name (hvalues : ∀ b v, values.find? b = some v →
    InPlace P env (scopesExpr own v)) (id : Ident) :
    Substitutes P env values [.occurs true id]
      (scopesExpr own ((values.find? id.binding).getD (.ident id))) := by
  intro _ hstay
  cases hfind : values.find? id.binding with
  | some v => exact hvalues _ v hfind
  | none =>
    obtain ⟨hright, hP⟩ := hstay (true, id) (List.mem_singleton_self _) (by simp [Replaces, hfind])
    exact .occurs hright hP

theorem substituteEdits_relatesScopes (hvalues : ∀ b v, values.find? b = some v →
    InPlace P env (scopesExpr own v)) :
    (substituteEdits values).RelatesScopes own Eq (Substitutes P env values) := by
  have hexpr : ∀ a e, e.isName = false → Substitutes P env values a (scopesExpr own e) →
      Substitutes P env values a (scopesExpr own (result ((substituteEdits values).expr e))) := by
    intro a e he h
    cases e with
    | ident => cases he
    | _ => exact h
  exact {
    lifts := ⟨⟨fun _ => rfl, Eq.trans, fun h h' => h ▸ h' ▸ rfl⟩, fun _ => rfl, fun _ => rfl,
      fun _ => rfl, fun _ => rfl, fun _ => rfl⟩
    nil := fun _ _ => .nil
    append := .append
    scope := by
      rintro _ _ _ _ _ _ _ _ rfl hhead rfl hbody
      exact .scope hhead hbody
    other := fun id _ hstay => by
      obtain ⟨hright, hP⟩ := hstay (false, id) (List.mem_singleton_self _) (by simp [Replaces])
      exact .occurs hright hP
    name := .name hvalues
    nameBase := .name hvalues
    expr := hexpr
    base := hexpr
    varDeclDirect := fun _ => rfl
    listDirect := fun _ => rfl
  }

theorem inPlace_substitute
    (hvalues : ∀ b v, values.find? b = some v → InPlace P env (scopesExpr own v))
    (hdecls : declarationsOf (scopesExpr own e) = [])
    (hstay : ∀ o ∈ occurrencesOf (scopesExpr own e), ¬ Replaces values o →
      env o.2.name = o.2.scope ∧ P env o) : InPlace P env (scopesExpr own (e.substitute values)) :=
  (substituteEdits_relatesScopes hvalues).expr_rel e hdecls hstay

end Substitution

namespace Pass

/-! ### Proxies and the names that they bring along -/

/-- All proxies with the variables that hold them, by themselves or as members of their objects. -/
def Proxies.held (ps : Proxies) : List (Binding × Proxy) :=
  ps.functions ++ ps.objects.flatMap fun o => o.2.map fun m => (o.1, m.2)

/-- The names of a body that no argument replaces: those of other variables, and parameters that do
not stand as expressions. -/
def Proxy.leaves (own : String → Bool) (f : Proxy) : List (Bool × Ident) :=
  (occurrencesOf (scopesExpr own f.body)).filter fun o =>
    !(o.1 && f.params.contains o.2.binding)

/-- Whether the proxies of a variable bring a name to the place of a call, directly or by a call
that they leave there. -/
inductive Proxies.Brings (ps : Proxies) (own : String → Bool) : Binding → Ident → Prop
  | leaves {b : Binding} {f : Proxy} {o : Bool × Ident} : (b, f) ∈ ps.held → o ∈ f.leaves own →
    Brings ps own b o.2
  | calls {b : Binding} {f : Proxy} {o : Bool × Ident} {id : Ident} : (b, f) ∈ ps.held →
    o ∈ f.leaves own → o.1 = true → Brings ps own o.2.binding id → Brings ps own b id

/-- Where a proxy is read, the names that it brings along refer to what they refer to in it. -/
def Proxies.ClearAt (ps : Proxies) (own : String → Bool) (env : Scoping) (o : Bool × Ident) :
    Prop :=
  o.1 = true → ∀ id, ps.Brings own o.2.binding id → env id.name = id.scope

/-- Proxies that can be inlined without regard to names. -/
structure Proxies.Hygienic (ps : Proxies) (own : String → Bool) (p : Program) : Prop where
  /-- The body of a proxy declares nothing. -/
  plain : ∀ h ∈ ps.held, declarationsOf (scopesExpr own h.2.body) = []
  clear : (p.scopes own).Everywhere (ps.ClearAt own) .outside

/-- An occurrence that is known from a program or from the body of a proxy. -/
def Proxies.Known (ps : Proxies) (own : String → Bool) (p : Program) (o : Bool × Ident) : Prop :=
  o ∈ (p.scopes own).occurrences ∨ ∃ h ∈ ps.held, o ∈ h.2.leaves own

/-- A list of variables with names that holds all that their proxies bring along. -/
def Proxies.Covers (ps : Proxies) (own : String → Bool) (brought : List (Binding × Ident)) : Prop :=
  ∀ h ∈ ps.held, ∀ o ∈ h.2.leaves own, (h.1, o.2) ∈ brought ∧
    (o.1 = true → ∀ r ∈ brought, r.1 = o.2.binding → (h.1, r.2) ∈ brought)

instance (ps : Proxies) (own : String → Bool) (brought : List (Binding × Ident)) :
    Decidable (ps.Covers own brought) :=
  inferInstanceAs (Decidable (∀ h ∈ ps.held, ∀ o ∈ h.2.leaves own, _ ∧ (_ → ∀ r ∈ brought, _)))

variable {own : String → Bool} {ps : Proxies} {q : Program}

theorem Proxies.Covers.mem {brought : List (Binding × Ident)} (hcovers : ps.Covers own brought)
    {b : Binding} (h : ps.Brings own b id) : (b, id) ∈ brought := by
  induction h with
  | leaves hheld hleaves => exact (hcovers _ hheld _ hleaves).1
  | calls hheld hleaves hread _ ih => exact (hcovers _ hheld _ hleaves).2 hread _ ih rfl

/-- Whether names are clear can be told from what covers them. -/
theorem Proxies.Hygienic.of_covers {p : Program} (brought : List (Binding × Ident))
    (hcovers : ps.Covers own brought)
    (hplain : ∀ h ∈ ps.held, declarationsOf (scopesExpr own h.2.body) = [])
    (hclear : (p.scopes own).Everywhere (fun env o => o.1 = true → ∀ r ∈ brought,
      r.1 = o.2.binding → env r.2.name = r.2.scope) .outside) : ps.Hygienic own p where
  plain := hplain
  clear := by
    refine ScopeTree.Everywhere.imp _ (fun o _ env h => ?_) hclear
    intro hread id hbrings
    exact h hread _ (hcovers.mem hbrings) rfl

/-! ### Calls -/

section Inlining

variable {ps : Proxies} {own : String → Bool} {p : Program} {env : Scoping}

/-- Occurrences that are known, with all that they bring along in sight. -/
def Proxies.KnownClear (ps : Proxies) (own : String → Bool) (p : Program) (env : Scoping)
    (o : Bool × Ident) : Prop :=
  ps.ClearAt own env o ∧ ps.Known own p o

theorem scopesExpr_unparen (e : Expr) : scopesExpr own e.unparen = scopesExpr own e := by
  induction e using Expr.unparen_induct with
  | paren e ih => exact ih
  | bare e hbare => rw [hbare]

variable {P : Scoping → Bool × Ident → Prop} {holder : Binding}

theorem reads_of_resolve? {callee : Expr} {f : Proxy} (h : ps.resolve? callee = some (holder, f))
    (hcallee : InPlace P env (scopesExpr own callee)) :
    (holder, f) ∈ ps.held ∧ ∃ id : Ident, id.binding = holder ∧ P env (true, id) := by
  rw [← scopesExpr_unparen] at hcallee
  unfold Proxies.resolve? at h
  split at h
  · rename_i id hident
    obtain ⟨g, hg, heq⟩ := Option.map_eq_some_iff.1 h
    cases heq
    rw [hident] at hcallee
    exact ⟨List.mem_append_left _ (Table.mem_of_find? hg), id, rfl, hcallee.all.1⟩
  · rename_i obj prop hmember
    split at h
    · rename_i id hident
      rw [hmember] at hcallee
      have hobj := (InPlace.append_iff.1 hcallee).1
      rw [← scopesExpr_unparen, hident] at hobj
      obtain ⟨members, hmembers, h⟩ := Option.bind_eq_some_iff.1 h
      obtain ⟨key, -, h⟩ := Option.bind_eq_some_iff.1 h
      obtain ⟨g, hg, heq⟩ := Option.bind_eq_some_iff.1 h
      cases heq
      have hheld : (id.binding, f) ∈ members.map fun m => (id.binding, m.2) :=
        List.mem_map.2 ⟨(key, f), Table.mem_of_find? hg, rfl⟩
      exact ⟨List.mem_append_right _ (List.mem_flatMap.2 ⟨_, Table.mem_of_find? hmembers, hheld⟩),
        id, rfl, hobj.all.1⟩
    · cases h
  · cases h

theorem inPlace_args {args : List Expr} (h : InPlace P env (scopesExprs own args)) :
    ∀ e ∈ args, InPlace P env (scopesExpr own e) := by
  induction args with
  | nil => exact fun e he => absurd he List.not_mem_nil
  | cons arg args ih =>
    obtain ⟨harg, hargs⟩ := InPlace.append_iff.1 h
    exact List.forall_mem_cons.2 ⟨harg, ih hargs⟩

theorem inPlace_inlineCall (hplain : ∀ h ∈ ps.held, declarationsOf (scopesExpr own h.2.body) = [])
    {e' : Expr} (h : ps.inlineCall? e = some (holder, e'))
    (he : InPlace (ps.KnownClear own p) env (scopesExpr own e)) :
    InPlace (ps.KnownClear own p) env (scopesExpr own e') := by
  unfold Proxies.inlineCall? at h
  split at h
  · rename_i callee args
    obtain ⟨⟨holder', f⟩, hresolve, h⟩ := Option.bind_eq_some_iff.1 h
    obtain ⟨inlined, hinline, heq⟩ := Option.bind_eq_some_iff.1 h
    cases heq
    obtain ⟨hcallee, hargs⟩ := InPlace.append_iff.1 he
    obtain ⟨hheld, id, hid, hclear, -⟩ := reads_of_resolve? hresolve hcallee
    rw [eq_of_inline? hinline]
    refine inPlace_substitute ?_ (hplain _ hheld) ?_
    · intro b v hv
      rcases find?_bindArgs hv with hv | rfl
      · exact inPlace_args hargs v hv
      · exact .nil
    · intro o ho hstays
      -- What no argument replaces is left, and the holder is clear to bring it along.
      have hleaves : o ∈ f.leaves own := by
        refine List.mem_filter.2 ⟨ho, ?_⟩
        rw [Bool.not_eq_true', Bool.eq_false_iff]
        intro hparam
        rw [Bool.and_eq_true, List.contains_iff_mem] at hparam
        refine hstays ⟨hparam.1, Option.isSome_iff_ne_none.2 fun hnone => ?_⟩
        exact not_mem_of_find?_bindArgs hnone hparam.2
      rw [← hid] at hheld
      refine ⟨hclear rfl _ (.leaves hheld hleaves), ?_, .inr ⟨_, hheld, hleaves⟩⟩
      intro hread id' hbrings
      exact hclear rfl _ (.calls hheld hleaves hread hbrings)
  · cases h

/-- The edits that replace calls, without a record. -/
def inlining (ps : Proxies) : Edits Unit where
  expr := fun e => pure (match ps.inlineCall? e with
    | some (_, e') => e'
    | none => e)

theorem proxyEdits_agrees (ps : Proxies) :
    Edits.Agrees (fun _ _ => True) (proxyEdits ps) (inlining ps) := by
  have hexpr : ∀ e, Agree (fun _ _ => True) ((proxyEdits ps).expr e) ((inlining ps).expr e) := by
    intro e s u _
    simp only [proxyEdits, inlining]
    cases ps.inlineCall? e <;> exact ⟨rfl, trivial⟩
  exact { expr := fun e => (hexpr e).to, base := fun e => (hexpr e).to }

theorem inlining_relatesScopes
    (hplain : ∀ h ∈ ps.held, declarationsOf (scopesExpr own h.2.body) = []) :
    (inlining ps).RelatesScopes own Eq (fun before after =>
      ∀ env, InPlace (ps.KnownClear own p) env before → InPlace (ps.KnownClear own p) env after) := by
  have hexpr : ∀ a e, e.isName = false →
      (∀ env, InPlace (ps.KnownClear own p) env a →
        InPlace (ps.KnownClear own p) env (scopesExpr own e)) →
      ∀ env, InPlace (ps.KnownClear own p) env a →
        InPlace (ps.KnownClear own p) env (scopesExpr own (result ((inlining ps).expr e))) := by
    intro a e _ h env ha
    show InPlace _ env (scopesExpr own (match ps.inlineCall? e with
      | some (_, e') => e'
      | none => e))
    split
    · exact inPlace_inlineCall hplain ‹_› (h env ha)
    · exact h env ha
  exact {
    lifts := ⟨⟨fun _ => rfl, Eq.trans, fun h h' => h ▸ h' ▸ rfl⟩, fun _ => rfl, fun _ => rfl,
      fun _ => rfl, fun _ => rfl, fun _ => rfl⟩
    nil := fun _ h => h
    append := fun h h' env ha => by
      rw [InPlace.append_iff] at ha ⊢
      exact ⟨h env ha.1, h' env ha.2⟩
    scope := by
      rintro _ _ _ _ _ _ _ _ rfl hhead rfl hbody env h
      rw [InPlace.scope_iff] at h ⊢
      obtain ⟨hdeclared, h, hadded, h'⟩ := h
      exact ⟨hdeclared, hhead _ h, hadded, hbody _ h'⟩
    other := fun _ _ h => h
    name := fun _ _ h => h
    nameBase := fun _ _ h => h
    expr := hexpr
    base := hexpr
    varDeclDirect := fun _ => rfl
    listDirect := fun _ => rfl
  }

/-- However many rounds there are, everything stays in place. -/
theorem inPlace_inlineRounds (hplain : ∀ h ∈ ps.held, declarationsOf (scopesExpr own h.2.body) = [])
    (rounds : Nat) (used : ProxyTally) (h : InPlace (ps.KnownClear own p) env [q.scopes own]) :
    InPlace (ps.KnownClear own p) env [(inlineRounds ps rounds q used).1.scopes own] := by
  induction rounds generalizing q used with
  | zero => exact h
  | succ rounds ih =>
    have hround : InPlace (ps.KnownClear own p) env
        [((editProgram (proxyEdits ps) q).run used).1.scopes own] := by
      rw [(editProgram_agree (proxyEdits_agrees ps) q).result_eq used]
      exact (inlining_relatesScopes hplain).program q env h
    unfold inlineRounds
    generalize (editProgram (proxyEdits ps) q).run used = r at hround ⊢
    obtain ⟨q', used'⟩ := r
    dsimp only
    split
    · exact hround
    · exact ih used' hround

end Inlining

/-! ### The pass -/

theorem inlineProxiesResolved_hygienic (removeUnused : Bool) (maxRounds : Nat)
    (hbound : q.WellBound own []) (hps : (Proxies.collect q).Hygienic own q) :
    (inlineProxiesResolved removeUnused maxRounds q).1.WellBound own [] ∧
      ∀ o ∈ ((inlineProxiesResolved removeUnused maxRounds q).1.scopes own).occurrences,
        (Proxies.collect q).Known own q o := by
  have hstart : InPlace ((Proxies.collect q).KnownClear own q) .outside [q.scopes own] := by
    refine ⟨⟨hbound, trivial⟩, ?_, trivial⟩
    exact ScopeTree.Everywhere.imp _ (fun o ho _ hclear => ⟨hclear, .inl ho⟩) hps.clear
  have hrounds := inPlace_inlineRounds hps.plain maxRounds [] hstart
  have hknown : ∀ {t : ScopeTree}, InPlace ((Proxies.collect q).KnownClear own q) .outside [t] →
      ∀ o ∈ t.occurrences, (Proxies.collect q).Known own q o := by
    intro t ht o ho
    obtain ⟨env', -, hknown⟩ := ScopeTree.Everywhere.exists_of_mem t ht.all.1 ho
    exact hknown
  unfold inlineProxiesResolved
  dsimp only
  split
  · exact ⟨hbound, hknown hstart⟩
  split
  · refine And.imp id (fun hkept o ho => hknown hrounds o (hkept.subset ho))
      (And.comm.1 (removeDecls_wellBound ?_ hrounds.right.1))
    intro b hb
    have hcount := (Bool.and_eq_true_iff.1 (List.mem_filter.1 hb).2).1
    exact Nat.le_of_eq (eq_of_beq hcount)
  · exact ⟨hrounds.right.1, hknown hrounds⟩

/-- Where proxies can be inlined without regard to names, the result is the resolved tree without
its tags, and every name in that tree comes from the program or from the body of a proxy and refers,
by its spelling, to the variable whose tag it carries. -/
theorem inlineProxies_hygienic (own : String → Bool) (removeUnused : Bool) (maxRounds : Nat)
    (p : Program) (hbound : p.resolved.WellBound own [])
    (hps : (Proxies.collect p.resolved).Hygienic own p.resolved) :
    (inlineProxies removeUnused maxRounds p).1 =
        (inlineProxiesResolved removeUnused maxRounds p.resolved).1.untagged ∧
      (inlineProxiesResolved removeUnused maxRounds p.resolved).1.WellBound own [] ∧
      ∀ o ∈ ((inlineProxiesResolved removeUnused maxRounds p.resolved).1.scopes own).occurrences,
        (Proxies.collect p.resolved).Known own p.resolved o :=
  ⟨rfl, inlineProxiesResolved_hygienic removeUnused maxRounds hbound hps⟩

/-- `function add(a, b) { return a + b; } function twice(x) { return add(x, x); }` and
`function r(add) { return add; } function s(y) { { let x = y; return twice(x); } }` -/
def shadowedParameter : Program where
  grammar := .script
  body := [
    .decl (.func { name := "add" } (.mk false false []
      [.name (.ofIdent { name := "a" }), .name (.ofIdent { name := "b" })] none
      (.block [.return (some (.binary .add (.ofName "a") (.ofName "b")))]))),
    .decl (.func { name := "twice" } (.mk false false [] [.name (.ofIdent { name := "x" })] none
      (.block [.return (some (.call (.ofName "add") [.ofName "x", .ofName "x"]))]))),
    .decl (.func { name := "r" } (.mk false false [] [.name (.ofIdent { name := "add" })] none
      (.block [.return (some (.ofName "add"))]))),
    .decl (.func { name := "s" } (.mk false false [] [.name (.ofIdent { name := "y" })] none
      (.block [.block [
        .decl (.var (.single .let { name := "x" } (some (.ofName "y")))),
        .return (some (.call (.ofName "twice") [.ofName "x"]))]])))]

/-- What the proxies of the program bring along: `twice` brings `add`. -/
def shadowedBrought : List (Binding × Ident) :=
  [(⟨"twice", .top⟩, { name := "add", scope := .top })]

/-- Two calls that lead to a third are replaced, and both functions go, though a parameter that has
the name of one of them hides it elsewhere. -/
theorem inlineProxies_hygienic_shadowed :
    shadowedParameter.resolved.WellBound loosely [] ∧
      (Proxies.collect shadowedParameter.resolved).Hygienic loosely shadowedParameter.resolved ∧
      (inlineProxiesResolved true 3 shadowedParameter.resolved).2 = (3, 2) ∧
      (inlineProxiesResolved true 3 shadowedParameter.resolved).1.WellBound loosely [] := by
  have hbound : shadowedParameter.resolved.WellBound loosely [] := by decide +kernel
  have hps : (Proxies.collect shadowedParameter.resolved).Hygienic loosely
      shadowedParameter.resolved :=
    .of_covers shadowedBrought (by decide +kernel) (by decide +kernel) (by decide +kernel)
  exact ⟨hbound, hps, by decide +kernel,
    (inlineProxies_hygienic loosely true 3 shadowedParameter hbound hps).2.1⟩

/-- `var m = { k: true }; function p(a) { return m.k + a; } function r(m) { return p(true); }` -/
def shadowedObject : Program where
  grammar := .script
  body := [
    .decl (.var (.single .var { name := "m" } (some (.object [.keyValue (.name "k") (.ofBool true)])))),
    .decl (.func { name := "p" } (.mk false false [] [.name (.ofIdent { name := "a" })] none
      (.block [.return (some (.binary .add (.member (.ofName "m") (.name "k")) (.ofName "a")))]))),
    .decl (.func { name := "r" } (.mk false false [] [.name (.ofIdent { name := "m" })] none
      (.block [.return (some (.call (.ofName "p") [.ofBool true]))])))]

/-- A name of the body is captured by a parameter around the call. -/
theorem inlineProxies_captures :
    shadowedObject.resolved.WellBound loosely [] ∧
      ¬ (inlineProxiesResolved true 3 shadowedObject.resolved).1.WellBound loosely [] := by
  decide +kernel

/-- `function p(a) { return { get k() { var h = { x: true }; return h.x + a; } }; } p(h);` -/
def declaringProxy : Program where
  grammar := .script
  body := [
    .decl (.func { name := "p" } (.mk false false [] [.name (.ofIdent { name := "a" })] none
      (.block [.return (some (.object [.getter (.name "k") [
        .decl (.var (.single .var { name := "h" }
          (some (.object [.keyValue (.name "x") (.ofBool true)])))),
        .return (some (.binary .add (.member (.ofName "h") (.name "x")) (.ofName "a")))]]))]))),
    .expr (.call (.ofName "p") [.ofName "h"])]

/-- An argument is captured by a variable that the body declares in an accessor. -/
theorem inlineProxies_captures_argument :
    declaringProxy.resolved.WellBound loosely [] ∧
      ¬ (inlineProxiesResolved true 3 declaringProxy.resolved).1.WellBound loosely [] := by
  decide +kernel

end Pass

end Untangle
